import Observing.Proofs.Returns
import Observing.Proofs.Totals
import Observing.Service

/-!
# Digests of programs

The digest of a program needs the digests of all its observations.  Where one of them is refused, the
first refusal is that of the program, and the service answers it as it answers the observation alone.
Otherwise the times of the program are sums, class by class, over the digests of the observations.
Observations are digested one after another, so that nothing is returned where one of them is neither
refused nor digested.

* `Collects`                what is done to all of a list, one after another, until something fails;
* `FailsAt`                 the first place of a list at which something fails;
* `collects_ok_iff`, `collects_error_iff`  everything succeeds, or the first failure is that of all;
* `ProgramDigest.plus`      the digest of two programs together;
* `Engine.DigestsProgram`   what is returned for the digest of a program, if anything is;
* `Framework.Lawful`        what is relied on of what brings requests to the service;
* `Framework.Posts`         a request that posts something to a path;
* `CategorizedTime.micros_get_sum`         sums of charged times, class by class;
* `Settings.respond_failsAt`               the reply to a program that is refused;
* `Engine.programDigest_exact`             the digest of a program.
-/

namespace Observing

/-! ## Sums of charged times -/

namespace CategorizedTime

theorem get_foldl_plus (ts : List CategorizedTime) (t : CategorizedTime) (c : ChargeClass) :
    (ts.foldl (· + ·) t).get c = t.get c + TimeSpan.sum (ts.map (·.get c)) := by
  induction ts generalizing t with
  | nil => exact (TimeSpan.add_zero _).symm
  | cons u us ih =>
    rw [List.foldl_cons, ih, get_plus, List.map_cons, TimeSpan.sum_cons, TimeSpan.add_assoc]

theorem get_sum (ts : List CategorizedTime) (c : ChargeClass) :
    (sum ts).get c = TimeSpan.sum (ts.map (·.get c)) := by
  rw [sum, get_foldl_plus, get_zero, TimeSpan.zero_add]

theorem micros_get_sum (ts : List CategorizedTime) (c : ChargeClass) :
    ((sum ts).get c).micros = min (ts.map fun t => (t.get c).micros).sum Ticks.greatest := by
  rw [get_sum, TimeSpan.micros_sum, List.map_map]
  rfl

theorem sum_append (as bs : List CategorizedTime) : sum (as ++ bs) = sum as + sum bs :=
  ext_get fun c => by
    rw [get_plus, get_sum, get_sum, get_sum, List.map_append, TimeSpan.sum_append]

theorem sum_perm {as bs : List CategorizedTime} (h : as.Perm bs) : sum as = sum bs := by
  refine ext_get fun c => TimeSpan.ext ?_
  rw [micros_get_sum, micros_get_sum, (h.map _).sum_eq]

end CategorizedTime

namespace ProgramDigest

/-- The digest of two programs together. -/
def plus (p q : ProgramDigest) : ProgramDigest :=
  ⟨p.observations ++ q.observations, p.finalCharge + q.finalCharge, p.remaining + q.remaining⟩

theorem ofDigests_append (ds es : List ObservationDigest) :
    ofDigests (ds ++ es) = (ofDigests ds).plus (ofDigests es) := by
  simp only [ofDigests, plus, List.map_append, CategorizedTime.sum_append]

/-- The order of the digests is seen in the list of the observations alone. -/
theorem ofDigests_perm {ds es : List ObservationDigest} (h : es.Perm ds) :
    ofDigests es = { ofDigests ds with observations := es.map (·.observation) } := by
  simp only [ofDigests, CategorizedTime.sum_perm (h.map _)]

end ProgramDigest

/-! ## All or nothing -/

section

variable {ε α β : Type} {R : α → Except ε β → Prop} {a : α} {b : β} {as : List α} {bs : List β}
  {err : ε} {i : ℕ} {r : Except ε (List β)}

/-- What comes of all of a list, one after another: all that comes of them, or the first failure. -/
inductive Collects (R : α → Except ε β → Prop) : List α → Except ε (List β) → Prop
  | nil : Collects R [] (.ok [])
  | fail {a : α} {as : List α} {err : ε} : R a (.error err) → Collects R (a :: as) (.error err)
  | next {a : α} {as : List α} {b : β} {r : Except ε (List β)} :
    R a (.ok b) → Collects R as r → Collects R (a :: as) (r.map (b :: ·))

/-- Something fails at a place of a list, and everything in front of it succeeds. -/
def FailsAt (R : α → Except ε β → Prop) (as : List α) (i : ℕ) (err : ε) : Prop :=
  (∀ a ∈ as.take i, ∃ b, R a (.ok b)) ∧ ∃ a, as[i]? = some a ∧ R a (.error err)

theorem failsAt_cons_zero : FailsAt R (a :: as) 0 err ↔ R a (.error err) := by
  constructor
  · rintro ⟨-, c, hc, hfails⟩
    cases hc
    exact hfails
  · intro h
    exact ⟨fun c hc => absurd hc List.not_mem_nil, a, rfl, h⟩

theorem failsAt_cons_succ :
    FailsAt R (a :: as) (i + 1) err ↔ (∃ b, R a (.ok b)) ∧ FailsAt R as i err := by
  rw [FailsAt, List.take_succ_cons, List.forall_mem_cons, List.getElem?_cons_succ, and_assoc]
  rfl

theorem collects_ok_iff : Collects R as (.ok bs) ↔ List.Forall₂ (fun a b => R a (.ok b)) as bs := by
  constructor
  · intro h
    generalize hr : (Except.ok bs : Except ε (List β)) = r at h
    induction h generalizing bs with
    | nil =>
      cases hr
      exact .nil
    | fail _ => cases hr
    | @next a as b r hb _ ih =>
      cases r with
      | error err => cases hr
      | ok cs =>
        cases hr
        exact .cons hb (ih rfl)
  · intro h
    induction h with
    | nil => exact .nil
    | cons hb _ ih => exact .next hb ih

/-- What fails first is what all together fail with. -/
theorem collects_error_iff : Collects R as (.error err) ↔ ∃ i, FailsAt R as i err := by
  constructor
  · intro h
    generalize hr : (Except.error err : Except ε (List β)) = r at h
    induction h with
    | nil => cases hr
    | fail hfails =>
      cases hr
      exact ⟨0, failsAt_cons_zero.2 hfails⟩
    | @next a as b r hb _ ih =>
      cases r with
      | error _ =>
        cases hr
        obtain ⟨i, hi⟩ := ih rfl
        exact ⟨i + 1, failsAt_cons_succ.2 ⟨⟨b, hb⟩, hi⟩⟩
      | ok cs => cases hr
  · rintro ⟨i, hi⟩
    induction as generalizing i with
    | nil =>
      obtain ⟨-, a, ha, -⟩ := hi
      cases ha
    | cons a as ih =>
      cases i with
      | zero => exact .fail (failsAt_cons_zero.1 hi)
      | succ i =>
        obtain ⟨⟨b, hb⟩, hi⟩ := failsAt_cons_succ.1 hi
        exact .next hb (ih i hi)

/-- Where something comes of each, something comes of all together. -/
theorem exists_collects (h : ∀ a ∈ as, ∃ r, R a r) : ∃ r, Collects R as r := by
  induction as with
  | nil => exact ⟨_, .nil⟩
  | cons a as ih =>
    obtain ⟨⟨r, hr⟩, hrest⟩ := List.forall_mem_cons.1 h
    cases r with
    | error err => exact ⟨_, .fail hr⟩
    | ok b =>
      obtain ⟨rs, hrs⟩ := ih hrest
      exact ⟨_, .next hr hrs⟩

theorem forall_ok_of_forall₂ (h : List.Forall₂ (fun a b => R a (.ok b)) as bs) :
    ∀ a ∈ as, ∃ b, R a (.ok b) := by
  induction h with
  | nil => exact fun a ha => absurd ha List.not_mem_nil
  | cons hb _ ih => exact List.forall_mem_cons.2 ⟨⟨_, hb⟩, ih⟩

theorem exists_collects_ok_iff : (∃ bs, Collects R as (.ok bs)) ↔ ∀ a ∈ as, ∃ b, R a (.ok b) := by
  simp only [collects_ok_iff]
  constructor
  · rintro ⟨bs, h⟩
    exact forall_ok_of_forall₂ h
  · intro h
    induction as with
    | nil => exact ⟨[], .nil⟩
    | cons a as ih =>
      obtain ⟨⟨b, hb⟩, hrest⟩ := List.forall_mem_cons.1 h
      obtain ⟨bs, hbs⟩ := ih hrest
      exact ⟨b :: bs, .cons hb hbs⟩

end

/-! ## The digest of a program -/

namespace Engine

variable {e : Engine} {o : Observation} {os os' : List Observation} {d : ObservationDigest}
  {ds : List ObservationDigest} {p q : ProgramDigest} {refusal : Refusal}

/-- The engine returns a result for the digest of an observation, with the exposure times it comes
with. -/
def OwnDigests (e : Engine) (o : Observation) (result : Except Refusal ObservationDigest) : Prop :=
  e.Digests o (.ofObservation o) result

/-- The engine returns a result for the digest of a program: its observations are digested one after
another, up to the first that is refused. -/
def DigestsProgram (e : Engine) (os : List Observation) (result : Except Refusal ProgramDigest) :
    Prop :=
  ∃ ds, Collects e.OwnDigests os ds ∧ result = ds.map .ofDigests

theorem ownDigests_of_collects {r : Except Refusal (List ObservationDigest)}
    (h : Collects e.OwnDigests os r) : e.ownDigests os = r := by
  induction h with
  | nil => rfl
  | fail ho =>
    have hown : e.ownDigest _ = .error _ := ho.result
    rw [ownDigests, hown]
    rfl
  | @next o os d r ho _ ih =>
    have hown : e.ownDigest o = .ok d := ho.result
    rw [ownDigests, hown, ih]
    cases r <;> rfl

/-- What is returned is what the program comes to. -/
theorem DigestsProgram.result {result : Except Refusal ProgramDigest}
    (h : e.DigestsProgram os result) : e.programDigest os = result := by
  obtain ⟨ds, hds, rfl⟩ := h
  rw [programDigest, ownDigests_of_collects hds]
  cases ds <;> rfl

theorem map_observation (h : List.Forall₂ (fun o d => e.OwnDigests o (.ok d)) os ds) :
    ds.map (·.observation) = os.map (·.id) := by
  induction h with
  | nil => rfl
  | cons hd _ ih => rw [List.map_cons, List.map_cons, hd.observation, ih]

theorem digestsProgram_ok_iff : e.DigestsProgram os (.ok p) ↔
    ∃ ds, List.Forall₂ (fun o d => e.OwnDigests o (.ok d)) os ds ∧ p = .ofDigests ds := by
  simp only [← collects_ok_iff]
  constructor
  · rintro ⟨r, hr, hp⟩
    cases r with
    | error refusal => cases hp
    | ok ds =>
      cases hp
      exact ⟨ds, hr, rfl⟩
  · rintro ⟨ds, hds, rfl⟩
    exact ⟨_, hds, rfl⟩

theorem digestsProgram_error_iff :
    e.DigestsProgram os (.error refusal) ↔ ∃ i, FailsAt e.OwnDigests os i refusal := by
  rw [← collects_error_iff]
  constructor
  · rintro ⟨r, hr, hrefused⟩
    cases r with
    | error first =>
      cases hrefused
      exact hr
    | ok ds => cases hrefused
  · intro h
    exact ⟨_, h, rfl⟩

/-- A program has a digest exactly when all its observations have one. -/
theorem exists_digestsProgram_iff :
    (∃ p, e.DigestsProgram os (.ok p)) ↔ ∀ o ∈ os, ∃ d, e.OwnDigests o (.ok d) := by
  rw [← exists_collects_ok_iff]
  simp only [digestsProgram_ok_iff, ← collects_ok_iff]
  constructor
  · rintro ⟨_, ds, hds, -⟩
    exact ⟨ds, hds⟩
  · rintro ⟨ds, hds⟩
    exact ⟨_, ds, hds, rfl⟩

theorem digestsProgram_perm (hperm : os'.Perm os) (h : e.DigestsProgram os (.ok p)) :
    e.DigestsProgram os' (.ok { p with observations := os'.map (·.id) }) := by
  obtain ⟨ds, hds, rfl⟩ := digestsProgram_ok_iff.1 h
  obtain ⟨es, hes, hperm⟩ := List.perm_comp_forall₂ hperm hds
  rw [digestsProgram_ok_iff]
  refine ⟨es, hes, ?_⟩
  rw [ProgramDigest.ofDigests_perm hperm, map_observation hes]

theorem digestsProgram_append_of_ok {p' : ProgramDigest} (h : e.DigestsProgram os (.ok p))
    (h' : e.DigestsProgram os' (.ok p')) : e.DigestsProgram (os ++ os') (.ok (p.plus p')) := by
  obtain ⟨ds, hds, rfl⟩ := digestsProgram_ok_iff.1 h
  obtain ⟨es, hes, rfl⟩ := digestsProgram_ok_iff.1 h'
  rw [digestsProgram_ok_iff]
  exact ⟨ds ++ es, List.rel_append hds hes, (ProgramDigest.ofDigests_append ds es).symm⟩

/-- Two programs together have a digest exactly when each has one, and it is the two together. -/
theorem digestsProgram_append : e.DigestsProgram (os ++ os') (.ok q) ↔
    ∃ p p', e.DigestsProgram os (.ok p) ∧ e.DigestsProgram os' (.ok p') ∧ q = p.plus p' := by
  constructor
  · intro h
    have hall := exists_digestsProgram_iff.1 ⟨q, h⟩
    rw [List.forall_mem_append] at hall
    obtain ⟨p, hp⟩ := exists_digestsProgram_iff.2 hall.1
    obtain ⟨p', hp'⟩ := exists_digestsProgram_iff.2 hall.2
    have hq := (digestsProgram_append_of_ok hp hp').result
    rw [h.result] at hq
    cases hq
    exact ⟨p, p', hp, hp', rfl⟩
  · rintro ⟨p, p', hp, hp', rfl⟩
    exact digestsProgram_append_of_ok hp hp'

end Engine

/-! ## Requests -/

/-- What is read of a list is read of its items. -/
theorem getElem?_of_decodeItems {α : Type} {read : Json → Decoded α} {js : List Json} {as : List α}
    (h : decodeItems read js = .ok as) {i : ℕ} {a : α} (ha : as[i]? = some a) :
    ∃ j, js[i]? = some j ∧ read j = .ok a := by
  induction js generalizing as i with
  | nil =>
    cases h
    cases ha
  | cons j js ih =>
    rw [decodeItems] at h
    cases hj : read j with
    | error m =>
      rw [hj] at h
      cases h
    | ok b =>
      cases hjs : decodeItems read js with
      | error m =>
        rw [hj, hjs] at h
        cases h
      | ok bs =>
        rw [hj, hjs] at h
        cases h
        cases i with
        | zero =>
          cases ha
          exact ⟨j, rfl, hj⟩
        | succ i => exact ih hjs ha

/-- What is relied on of a framework: a request comes to the endpoint of its path and its method, if no
other endpoint has the path, and the reply to what was posted is sent as it is. -/
structure Framework.Lawful {ρ : Type} (f : Framework ρ) : Prop where
  route : ∀ (endpoints : List Endpoint) (e : Endpoint) (r : ρ), e ∈ endpoints →
    (∀ e' ∈ endpoints, e'.path = e.path → e' = e) → f.path r = e.path → f.method r = e.method →
      f.route endpoints r = .ok e
  deliver : ∀ (r : ρ) (reply : Reply), f.method r = "POST" → f.deliver r reply = reply

/-- Requests in their parts come to the endpoint of their path and their method. -/
theorem Framework.lawful_plain : Framework.plain.Lawful where
  route endpoints e r he hother hpath hmethod := by
    change r.path = e.path at hpath
    change r.method = e.method at hmethod
    have hfind : (endpoints.find? fun e' => e'.path = r.path) = some e := by
      cases h : endpoints.find? fun e' => e'.path = r.path with
      | none => exact absurd hpath.symm (by simpa using List.find?_eq_none.1 h e he)
      | some e' =>
        have hpath' : e'.path = r.path := by simpa using List.find?_some h
        rw [hother e' (List.mem_of_find?_eq_some h) (hpath'.trans hpath)]
    have hoptions : e.method ≠ "OPTIONS" := by
      cases e <;> decide
    simp [plain, hoptions, hfind, hmethod]
  deliver r reply hmethod := by
    change r.method = "POST" at hmethod
    simp [plain, hmethod]

section

variable {ρ α β : Type} [Decode α] [Encode β] {f : Framework ρ} {r : ρ} {path : String} {body : Json}
  {a : α}

/-- A request posts something to a path: its body is read as a document that denotes it. -/
structure Framework.Posts (f : Framework ρ) (r : ρ) (path : String) (body : Json) (a : α) : Prop where
  method : f.method r = "POST"
  path : f.path r = path
  document : f.document r = .ok body
  decode : decode body = .ok a

theorem Framework.Posts.read (h : f.Posts r path body a) : f.read r = .ok a := by
  rw [Framework.read, h.document]
  show (Decode.decode body).mapError _ = _
  rw [h.decode]
  rfl

/-- What is posted to an endpoint and refused by what it asks for is answered with the refusal. -/
theorem Settings.respond_refused {s : Settings} {answer : α → Except Refusal β} {refusal : Refusal}
    (endpoint : Endpoint) (hf : f.Lawful) (h : f.Posts r endpoint.path body a)
    (hmethod : endpoint.method = "POST") (hanswer : s.answer f r endpoint = f.answerWith r answer)
    (hrefused : answer a = .error refusal) : s.respond f r = .refused refusal := by
  have hroute : f.route Endpoint.all r = .ok endpoint :=
    hf.route _ _ _ (Endpoint.mem_all _) (fun _ _ hpath => Endpoint.path_inj hpath) h.path
      (h.method.trans hmethod.symm)
  rw [respond, hroute]
  show f.deliver r (s.answer f r endpoint) = _
  rw [hf.deliver _ _ h.method, hanswer]
  exact Framework.answerWith_error h.read hrefused

end

/-- A program is answered as the first observation that is refused. -/
theorem Settings.respond_failsAt {ρ : Type} {f : Framework ρ} {s : Settings} {r : ρ} {body : Json}
    {os : List Observation} {i : ℕ} {refusal : Refusal} (hf : f.Lawful)
    (h : f.Posts r "/api/program/digest" body os)
    (hfails : FailsAt s.engine.OwnDigests os i refusal) :
    s.respond f r = .refused refusal ∧
    ∃ items item o, body = .list items ∧ items[i]? = some item ∧ os[i]? = some o ∧
      decode item = .ok o ∧ ∀ (r' : ρ) (body' : Json), f.Posts r' "/api/digest" body' o →
        s.respond f r' = s.respond f r := by
  have hprogram : s.respond f r = .refused refusal :=
    respond_refused .programDigest hf h rfl rfl
      (Engine.digestsProgram_error_iff.2 ⟨i, hfails⟩).result
  obtain ⟨-, o, ho, hrefused⟩ := hfails
  have hread := h.decode
  cases body with
  | list items =>
    obtain ⟨item, hitem, hdecode⟩ := getElem?_of_decodeItems hread ho
    refine ⟨hprogram, items, item, o, rfl, hitem, ho, hdecode, fun r' body' h' => ?_⟩
    rw [hprogram]
    exact respond_refused .digest hf h' rfl rfl hrefused.result
  | null | bool | integer | decimal | text | object | unreadable => cases hread

/-- The digest of a program is all or nothing.  What is returned is what the program comes to.  There is
a digest exactly when every observation has one; a program is refused exactly as the first observation
that is refused, those in front of it having digests; and something is returned where each observation
is digested or refused on its own.  The service answers a refused program with the reply that it gives
to any request for the observation alone.  A digest lists the observations in their order and adds up
their own digests, each class stopped at the greatest span once.  So the order of the observations is
seen in that list alone, and the digest of two programs together is that of the one and of the other. -/
theorem Engine.programDigest_exact (e : Engine) (os : List Observation) :
    (∀ result, e.DigestsProgram os result → e.programDigest os = result) ∧
    ((∃ p, e.DigestsProgram os (.ok p)) ↔ ∀ o ∈ os, ∃ d, e.OwnDigests o (.ok d)) ∧
    (∀ refusal, e.DigestsProgram os (.error refusal) ↔ ∃ i, FailsAt e.OwnDigests os i refusal) ∧
    ((∀ o ∈ os, ∃ result, e.OwnDigests o result) → ∃ result, e.DigestsProgram os result) ∧
    (∀ (ρ : Type) (f : Framework ρ) (s : Settings) (r : ρ) (body : Json) (i : ℕ) (refusal : Refusal),
      f.Lawful → s.engine = e → f.Posts r "/api/program/digest" body os →
      FailsAt e.OwnDigests os i refusal →
        s.respond f r = .refused refusal ∧
        ∃ items item o, body = .list items ∧ items[i]? = some item ∧ os[i]? = some o ∧
          decode item = .ok o ∧ ∀ (r' : ρ) (body' : Json), f.Posts r' "/api/digest" body' o →
            s.respond f r' = s.respond f r) ∧
    (∀ p, e.DigestsProgram os (.ok p) → p.observations = os.map (·.id) ∧
      (∃ ds, List.Forall₂ (fun o d => e.OwnDigests o (.ok d)) os ds ∧ ∀ c,
        (p.finalCharge.get c).micros =
          min (ds.map fun d => (d.invoice.finalCharge.get c).micros).sum Ticks.greatest ∧
        (p.remaining.get c).micros =
          min (ds.map fun d => (d.remaining.get c).micros).sum Ticks.greatest) ∧
      ∀ os' : List Observation, os'.Perm os →
        e.DigestsProgram os' (.ok { p with observations := os'.map (·.id) })) ∧
    ∀ os' q, e.DigestsProgram (os ++ os') (.ok q) ↔
      ∃ p p', e.DigestsProgram os (.ok p) ∧ e.DigestsProgram os' (.ok p') ∧ q = p.plus p' := by
  refine ⟨fun result h => h.result, exists_digestsProgram_iff, fun _ => digestsProgram_error_iff,
    fun h => ?_, ?_, fun p hp => ?_, fun os' q => digestsProgram_append⟩
  · obtain ⟨ds, hds⟩ := exists_collects h
    exact ⟨_, ds, hds, rfl⟩
  · rintro ρ f s r body i refusal hf rfl hr hfails
    exact Settings.respond_failsAt hf hr hfails
  · obtain ⟨ds, hds, rfl⟩ := digestsProgram_ok_iff.1 hp
    refine ⟨map_observation hds, ⟨ds, hds, fun c => ?_⟩, fun os' hperm => digestsProgram_perm hperm hp⟩
    have hcharge := CategorizedTime.micros_get_sum (ds.map (·.invoice.finalCharge)) c
    have hremaining := CategorizedTime.micros_get_sum (ds.map (·.remaining)) c
    rw [List.map_map] at hcharge hremaining
    exact ⟨hcharge, hremaining⟩

namespace Untargeted

/-- An observation without a target and a mode, as a document and as it is read. -/
def document (id : String) : Json := object [("observation_id", .text id)]

def observation (id : String) : Observation := ⟨id, none, none, none, none, ⟨[]⟩, []⟩

def refusal (id : String) : Refusal := ⟨id, .configurationIncomplete [.target, .observingMode]⟩

/-- Two such observations. -/
def program : Json := .list [document "o", document "p"]

/-- A request that posts a document to a path. -/
def request (path : String) (body : Json) : Request where
  method := "POST"
  target := ⟨path.toList, []⟩
  contentType := some "application/json"
  body := some body

theorem posts_request {α : Type} [Decode α] {body : Json} {a : α} (path : String)
    (h : decode body = .ok a) : Framework.plain.Posts (request path body) path body a where
  method := rfl
  path := String.ofList_toList
  document := by rfl
  decode := h

end Untargeted

/-- Two observations with targets have a digest, and two without are answered as the first of them. -/
theorem Engine.programDigest_exact_untargeted :
    (∃ p, Settings.standard.engine.DigestsProgram
      [Short.observation ⟨[]⟩, Short.observation Short.failed] (.ok p)) ∧
    Settings.standard.engine.DigestsProgram [Untargeted.observation "o", Untargeted.observation "p"]
      (.error (Untargeted.refusal "o")) ∧
    Settings.standard.respond .plain (Untargeted.request "/api/program/digest" Untargeted.program) =
      .refused (Untargeted.refusal "o") ∧
    Settings.standard.respond .plain (Untargeted.request "/api/digest" (Untargeted.document "o")) =
      .refused (Untargeted.refusal "o") := by
  obtain ⟨d, hd⟩ : ∃ d, Settings.standard.engine.OwnDigests (Short.observation ⟨[]⟩) (.ok d) :=
    digests_of_apart (s := Short.specification) (by decide +kernel) (by decide +kernel)
      fun | .acquisition => by decide +kernel | .science => by decide +kernel
  obtain ⟨d', hd'⟩ : ∃ d, Settings.standard.engine.OwnDigests (Short.observation Short.failed)
      (.ok d) :=
    digests_of_apart (s := Short.specification) (by decide +kernel) (by decide +kernel)
      fun | .acquisition => by decide +kernel | .science => by decide +kernel
  have hfails : FailsAt Settings.standard.engine.OwnDigests
      [Untargeted.observation "o", Untargeted.observation "p"] 0 (Untargeted.refusal "o") :=
    failsAt_cons_zero.2 (digests_error_iff.2 (by decide +kernel))
  have hprogram : (decode Untargeted.program : Decoded (List Observation)) =
      .ok [Untargeted.observation "o", Untargeted.observation "p"] := by decide +kernel
  have halone : (decode (Untargeted.document "o") : Decoded Observation) =
      .ok (Untargeted.observation "o") := by decide +kernel
  obtain ⟨-, hok, -⟩ := programDigest_exact Settings.standard.engine
    [Short.observation ⟨[]⟩, Short.observation Short.failed]
  obtain ⟨-, -, herror, -, hreply, -⟩ := programDigest_exact Settings.standard.engine
    [Untargeted.observation "o", Untargeted.observation "p"]
  obtain ⟨hrefused, -, -, o, -, -, ho, -, hsame⟩ :=
    hreply Request .plain Settings.standard _ _ 0 _ Framework.lawful_plain rfl
      (Untargeted.posts_request _ hprogram) hfails
  cases ho
  have hdigest := hsame _ _ (Untargeted.posts_request _ halone)
  have hsucceeds := hok.2 (List.forall_mem_cons.2 ⟨⟨d, hd⟩, List.forall_mem_singleton.2 ⟨d', hd'⟩⟩)
  exact ⟨hsucceeds, (herror _).2 ⟨0, hfails⟩, hrefused, hdigest.trans hrefused⟩

end Observing
