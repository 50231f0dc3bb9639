import Observing.Service.MediaType
import Observing.Service.RequestTarget
import Observing.Wire.Sequence
import Observing.Wire.Settings

/-!
# The service

* `Endpoint`           what can be asked for, each under its own path and by its own method;
* `Reply`              what the service answers;
* `Framework`          what brings requests to the service, whatever they are made of;
* `Settings.respond`   the reply of the service with the given settings;
* `Request`            a request in its parts, and `Framework.plain`, which takes it apart;
* `Settings.reply`     the reply to such a request.

The service keeps nothing between requests, so that a reply depends on the request alone.

Main statements: an observation that is refused is answered with the wording of the refusal
(`answerWith_error`), asking what is allowed is always answered (`reply_options`), and no path but
those of the endpoints is found (`reply_unknownPath`).
-/

namespace Observing

/-! ## Endpoints -/

/-- What can be asked for. -/
inductive Endpoint
  | health
  | details
  | sequence
  | digest
  | programDigest
deriving DecidableEq

namespace Endpoint

def all : List Endpoint := [health, details, sequence, digest, programDigest]

def path : Endpoint → String
  | health => "/health"
  | details => "/api/health"
  | sequence => "/api/sequence"
  | digest => "/api/digest"
  | programDigest => "/api/program/digest"

/-- The method of the requests that an endpoint answers. -/
def method : Endpoint → String
  | health | details => "GET"
  | sequence | digest | programDigest => "POST"

theorem path_inj {e e' : Endpoint} (h : e.path = e'.path) : e = e' := by
  revert h
  cases e <;> cases e' <;> decide

theorem mem_all (e : Endpoint) : e ∈ all := by
  cases e <;> decide

end Endpoint

/-! ## Replies -/

/-- A reply: it has no body, or a document as its body. -/
structure Reply where
  status : Nat
  body : Option Json

namespace Reply

def empty (status : Nat) : Reply := ⟨status, none⟩

def ok (body : Json) : Reply := ⟨200, some body⟩

/-- The reply to what went wrong, with its wording. -/
def failure (status : Nat) (wording : String) : Reply :=
  ⟨status, some (object [("error", .text wording), ("status", encode status)])⟩

/-- The reply to a body that cannot be read. -/
def badRequest (wording : String) : Reply := failure 400 wording

/-- The status under which a refusal is reported. -/
def refusalStatus : Refusal.Cause → Nat
  | .externalService _ => 502
  | _ => 422

/-- The reply to what is refused. -/
def refused (r : Refusal) : Reply := failure (refusalStatus r.cause) r.message

end Reply

/-! ## Frameworks -/

/-- What brings requests to the service and its replies back.  It decides to which of the endpoints a
request comes and reads what it carries; the service knows no more of requests. -/
structure Framework (ρ : Type) where
  method : ρ → String
  path : ρ → String
  /-- The endpoint among the given ones that a request is for, or the reply where it is for none. -/
  route : List Endpoint → ρ → Except Reply Endpoint
  /-- The limit that a request gives, if it gives one, or the reply where it cannot be read. -/
  limit : ρ → Except Reply (Option Nat)
  /-- The document that a request carries, or the wording where its body is rejected. -/
  document : ρ → Except String Json
  /-- The wording where the document that a request carries does not denote what is asked for. -/
  wording : ρ → Malformed → String
  /-- What is sent for the reply to a request. -/
  deliver : ρ → Reply → Reply

namespace Framework

variable {ρ α β : Type} [Decode α] [Encode β]

/-- What a request carries, or the wording where it cannot be read. -/
def read (f : Framework ρ) (r : ρ) : Except String α :=
  match f.document r with
  | .error wording => .error wording
  | .ok j => (decode j).mapError (f.wording r)

/-- The reply to what a request carries. -/
def answerWith (f : Framework ρ) (r : ρ) (answer : α → Except Refusal β) : Reply :=
  match (f.read r : Except String α) with
  | .error wording => .badRequest wording
  | .ok a =>
    match answer a with
    | .ok b => .ok (encode b)
    | .error refusal => .refused refusal

theorem answerWith_error {f : Framework ρ} {r : ρ} {answer : α → Except Refusal β} {a : α}
    {refusal : Refusal} (hread : f.read r = .ok a) (hanswer : answer a = .error refusal) :
    f.answerWith r answer = .refused refusal := by
  simp [answerWith, hread, hanswer]

end Framework

namespace Settings

variable {ρ : Type}

def engine (s : Settings) : Engine := ⟨s.limits, .standard⟩

def version : String := "0.1.0"

/-- The reply of an endpoint. -/
def answer (s : Settings) (f : Framework ρ) (r : ρ) : Endpoint → Reply
  | .health => .ok (object [("status", .text "ok")])
  | .details =>
    .ok (object [
      ("status", .text "ok"),
      ("server_name", .text s.serverName),
      ("version", .text version),
      ("limits", encode s.limits)])
  | .sequence =>
    match f.limit r with
    | .error reply => reply
    | .ok limit => f.answerWith r fun o : Observation => s.engine.generate o (.ofObservation o) limit
  | .digest => f.answerWith r s.engine.ownDigest
  | .programDigest => f.answerWith r s.engine.programDigest

/-- The reply to a request. -/
def respond (s : Settings) (f : Framework ρ) (r : ρ) : Reply :=
  match f.route Endpoint.all r with
  | .error reply => reply
  | .ok e => f.deliver r (s.answer f r e)

end Settings

/-! ## Requests in their parts -/

/-- A request.  The document in its body is there if the body holds one and nothing else, and is not
longer than what is read. -/
structure Request where
  method : String
  target : RequestTarget
  contentType : Option String
  body : Option Json

namespace Request

def isMethod (s : String) : Bool := !s.isEmpty && s.toList.all MediaType.isNameChar

/-- The value of a header: it has no control characters but tabulators. -/
def isHeaderValue (s : String) : Bool :=
  s.toList.all fun c => c = '\t' || 31 < c.toNat && c.toNat ≠ 127

/-- The request of the given parts, if they are well formed. -/
def ofParts? (method target : String) (contentType : Option String) (body : Option Json) :
    Option Request := do
  let target ← RequestTarget.parse? target
  if isMethod method && contentType.all isHeaderValue then
    return { method, target, contentType, body }
  else none

def path (r : Request) : String := String.ofList r.target.path

/-- The request says that its body is JSON. -/
def isJson (r : Request) : Bool := (r.contentType.bind MediaType.parse?).any (·.isJson)

/-- The limit that a query gives, if it gives one; none if it cannot be read or is given twice. -/
def limit? (r : Request) : Option (Option Nat) :=
  match r.target.parameters.filter fun p => p.1 = "limit" with
  | [] => some none
  | [(_, value)] => (Text.word? value).map some
  | _ => none

end Request

/-- Requests come to an endpoint by their path and their method.  Asking what is allowed is answered
for every path, and asking for the head of a reply is asking for the reply, of which the body is left
out.  The wording says how a body is rejected, and not what was found in it. -/
def Framework.plain : Framework Request where
  method r := r.method
  path r := r.path
  route endpoints r :=
    if r.method = "OPTIONS" then .error (.empty 200)
    else
      match endpoints.find? fun e => e.path = r.path with
      | none => .error (.empty 404)
      | some e =>
        if r.method = e.method || r.method = "HEAD" && e.method = "GET" then .ok e
        else .error (.empty 405)
  limit r :=
    match r.limit? with
    | none => .error (.empty 400)
    | some limit => .ok limit
  document r :=
    if !r.isJson then .error "Expected request with `Content-Type: application/json`"
    else
      match r.body with
      | none => .error "Failed to parse the request body as JSON"
      | some j => .ok j
  wording _ _ := "Failed to deserialize the JSON body into the target type"
  deliver r reply := if r.method = "HEAD" then .empty reply.status else reply

namespace Settings

def reply (s : Settings) (r : Request) : Reply := s.respond .plain r

theorem reply_options (s : Settings) (r : Request) (h : r.method = "OPTIONS") :
    s.reply r = .empty 200 := by
  simp [reply, respond, Framework.plain, h]

theorem reply_unknownPath (s : Settings) (r : Request) (hmethod : r.method ≠ "OPTIONS")
    (hpath : ∀ e : Endpoint, r.path ≠ e.path) : s.reply r = .empty 404 := by
  have hnone : (Endpoint.all.find? fun e => e.path = r.path) = none := by
    rw [List.find?_eq_none]
    intro e _
    simpa using fun h => hpath e h.symm
  simp [reply, respond, Framework.plain, hmethod, hnone]

end Settings
end Observing
