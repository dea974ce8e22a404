import Lnpl.Interp.Interpreter
import Lnpl.Serve.Connection

/-!
# `map_consume_result`

The status of a run that an event delivery has started: 200, 422 for a failure that the identical
envelope would meet again, 503 for one that a redelivery may not meet.  The status is guessed from
the kind of the failure and the effects of the failed step; `Classified` compares it with where the
failure comes from.
-/

namespace Lnpl.Serve

open Lnpl.Interp

variable {ρ χ ν : Type}

/-- The failed step carries a RepositoryCall or a NetworkCall; the first record under its name
decides. -/
def callsOut (steps : List StepRecord) (failedStep : String) : Bool :=
  match steps.find? fun entry => entry.step = failedStep with
  | none => false
  | some entry => "RepositoryCall" ∈ entry.effects || "NetworkCall" ∈ entry.effects

/-- `map_consume_result`. -/
def mapConsumeResult (result : Result) : Nat × Option String :=
  match result.failure with
  | none => (200, none)
  | some f =>
    if f.kind = some "deadline" then (503, some "event-retry-later")
    else if f.kind = some "conflict" then (422, some "event-rejected")
    else if f.kind = some "not-found" ∨ f.kind = some "id-required" then
      (422, some "event-rejected")
    else if f.kind = some "rejected" then (422, some "event-rejected")
    else if f.kind = some "write-conflict" then (503, some "event-retry-later")
    else if callsOut result.steps f.step then (503, some "event-retry-later")
    else (422, some "event-rejected")

/-- The status that the route answers with once the run of a delivery is over; an exception that
leaves the run is answered with 503. -/
def consumeStatus : EStateM.Result Exc (Session ρ χ ν) Result → Nat
  | .ok result _ => (mapConsumeResult result).1
  | .error _ _ => 503

/-! ### What the status is to say -/

/-- A redelivery may succeed: the deadline, or a `DriverError` other than a create conflict. -/
def TransientFailure (f : Failure) : Prop :=
  f.kind = some "deadline" ∨ ∃ cls, f.cause = some cls ∧ cls ≠ .conflictError

/-- The same, of an exception that leaves the run. -/
def TransientExc (e : Exc) : Prop := ∃ cls message, e = .driver cls message ∧ cls ≠ .conflictError

/-- A failed run is answered with 503 if a redelivery may succeed, and otherwise with 422. -/
def Classified : EStateM.Result Exc (Session ρ χ ν) Result → Prop
  | .ok result t => ∀ f, result.failure = some f →
    (TransientFailure f → consumeStatus (.ok result t) = 503) ∧
      (¬TransientFailure f → consumeStatus (.ok result t) = 422)
  | .error e t => (TransientExc e → consumeStatus (.error e t) = 503) ∧
    (¬TransientExc e → consumeStatus (.error e t) = 422)

/-- A failure without a kind has been raised from a `DriverError` exactly if its step carries a
RepositoryCall or a NetworkCall, and what leaves the run is a `DriverError` of its transaction. -/
def Guessable : EStateM.Result Exc (Session ρ χ ν) Result → Prop
  | .ok result _ => ∀ f, result.failure = some f → f.kind = none →
    (f.cause.isSome ↔ callsOut result.steps f.step)
  | .error e _ => TransientExc e

end Lnpl.Serve

/-!
## The consume route

`POST` to an event route: a CloudEvents envelope comes in, its `id` claims the idempotency key of
the route's workflow, and the workflow is run (`respondEventConsume`).  Every delivery opens a
connection of its own, and closing it discards what it has not committed (`deliver`).
-/

namespace Lnpl.Serve

open Lnpl.Interp Lnpl.Drivers.Idempotency

/-! ### Envelopes -/

/-- Python's `str.isspace`, of a character. -/
def isPythonSpace (c : Char) : Bool :=
  let n := c.toNat
  (0x09 ≤ n ∧ n ≤ 0x0d) ∨ (0x1c ≤ n ∧ n ≤ 0x20) ∨ n = 0x85 ∨ n = 0xa0 ∨ n = 0x1680 ∨
    (0x2000 ≤ n ∧ n ≤ 0x200a) ∨ n = 0x2028 ∨ n = 0x2029 ∨ n = 0x202f ∨ n = 0x205f ∨ n = 0x3000

/-- Python's `strip`. -/
def strip (s : List Char) : List Char :=
  ((s.dropWhile isPythonSpace).reverse.dropWhile isPythonSpace).reverse

/-- `datacontenttype.split(";", 1)[0].strip()`. -/
def mediaType (datacontenttype : String) : String :=
  String.ofList (strip (datacontenttype.toList.takeWhile (· ≠ ';')))

/-- A required attribute that is missing, empty or no text. -/
def missingAttribute (payload : Dict) : Option String :=
  ["specversion", "id", "source", "type"].find? fun field =>
    match Dict.get payload field with
    | .str text => text.isEmpty
    | _ => true

/-- `_validate_cloudevents_envelope`; a Lean text has no unpaired surrogates. -/
def validateCloudeventsEnvelope (lang : Lang) (payload : Dict) : Option (String × String) :=
  match missingAttribute payload with
  | some field => some (field, lang.repr field ++ " must be a non-empty string")
  | none =>
    if !lang.eq (Dict.get payload "specversion") (.str "1.0") then
      some ("specversion", "must be \"1.0\", got " ++
        lang.repr (lang.str (Dict.get payload "specversion")))
    else if payload.contains "data_base64" then
      some ("data_base64", "binary-mode CloudEvents are not accepted -- send a structured JSON " ++
        "envelope with `data` instead")
    else
      let badType : Option String :=
        match Dict.get payload "datacontenttype" with
        | .null => none
        | .str datacontenttype =>
          if mediaType datacontenttype = "application/json" then none
          else some ("only \"application/json\" is accepted, got " ++ lang.repr datacontenttype)
        | other => some ("must be a string, got " ++ lang.str other)
      match badType with
      | some detail => some ("datacontenttype", detail)
      | none =>
        match payload["data"]? with
        | none | some (.obj _) => none
        | some _ => some ("data", "must be a JSON object when present")

/-- `payload["id"]`. -/
def envelopeId (payload : Dict) : String :=
  match Dict.get payload "id" with
  | .str text => text
  | _ => ""

/-- `payload.get("data") or {}`. -/
def envelopeData (payload : Dict) : Dict :=
  match Dict.get payload "data" with
  | .obj fields => Std.ExtTreeMap.ofList fields compare
  | _ => ∅

/-- `MAX_IDEMPOTENCY_KEY_LENGTH`. -/
def maxIdempotencyKeyLength : Nat := 255

/-! ### Answers -/

/-- The body of an answer: a result, or a problem document. -/
inductive Body where
  | result (r : Result)
  | problem (status : Nat) (code detail : String) (correlationId failedStep : Option String)
      (skipped : Option (List SkipRecord))

/-- What the route answers with. -/
structure HttpAnswer where
  status : Nat
  body : Option Body

/-- `_json_response(start_response, status, problem(status, code, detail, ..))`. -/
def refuse (status : Nat) (code detail : String) (correlationId : Option String := none) :
    HttpAnswer :=
  ⟨status, some (.problem status code detail correlationId none none)⟩

/-! ### The route -/

/-- One delivery: the workflow of its route, the envelope, and what the request decides by itself.
`answers` is what the engine answers the calls on its connection. -/
structure Delivery where
  workflow : String
  envelope : Dict
  caller : Option Dict := none
  correlationId : String
  nowMs : Int
  clock : Nat := 0
  fill : FillSource → String
  schedules : Nat → List Move := fun _ => []
  answers : List EngineAnswer := []

/-- The claim key. -/
def Delivery.key (d : Delivery) : String × String := (d.workflow, envelopeId d.envelope)

variable {δ χ ν : Type}

/-- A program of the route, on what the request works with. -/
abbrev R (δ χ ν : Type) := EStateM Exc (Exec (Connection δ Body) χ ν)

variable (rt : Runtime (Connection δ Body) χ ν) (ttlMs : Int) (d : Delivery)

/-- `_release_event_claim`. -/
def releaseEventClaim : R δ χ ν Unit :=
  tryCatch (onRepo (Connection.idempotencyRelease d.key)) fun e =>
    match e with
    | .driver _ _ => pure ()
    | e => throw e

/-- The handler of an exception that leaves the run. -/
def afterEscape : R δ χ ν HttpAnswer := do
  let rolledBack ← tryCatch (do onRepo rt.repo.rollback; return true) fun _ => return false
  if rolledBack then releaseEventClaim d
  return refuse 503 "event-retry-later" "internal server error" (some d.correlationId)

/-- The answer for a result, with the status of `map_consume_result`. -/
def consumeAnswer (result : Result) : HttpAnswer :=
  match mapConsumeResult result with
  | (status, none) => ⟨status, some (.result result)⟩
  | (status, some code) =>
    ⟨status, some (.problem status code ((result.failure.map Failure.reason).getD "")
      (some d.correlationId) (result.failure.map Failure.step) (some result.skipped))⟩

/-- What follows a run that has returned: 503 releases the claim, 200 and 422 record the answer. -/
def afterResult (result : Result) : R δ χ ν HttpAnswer := do
  let answer := consumeAnswer d result
  if answer.status = 503 then releaseEventClaim d
  else
    match answer.body with
    | none => pure ()
    | some body => onRepo (Connection.idempotencyFinish d.key answer.status body)
  return answer

/-- The run of the delivery, from the state its claim has left. -/
def consumeRun (s : Exec (Connection δ Body) χ ν) :
    EStateM.Result Exc (Session (Connection δ Body) χ ν) Result :=
  runWorkflow { rt with caller := d.caller } d.workflow (envelopeData d.envelope) d.fill d.schedules s

/-- The run and what follows it. -/
def runDelivery : R δ χ ν HttpAnswer := fun s =>
  match consumeRun rt d s with
  | .ok result t => afterResult d result t.run.exec
  | .error _ t => afterEscape rt d t.run.exec

/-- The part of the route that works on the connection. -/
def claimAndRun : R δ χ ν HttpAnswer := do
  match ← onRepo (Connection.idempotencyBegin d.key d.nowMs ttlMs) with
  | .inProgress =>
    return refuse 409 "idempotency-in-progress" "a request with this CloudEvents id is already running"
      (some d.correlationId)
  | .done status body => return ⟨status.getD 0, body⟩
  | .started => runDelivery rt d

/-- `_respond_event_consume` over a driver with idempotency. -/
def respondEventConsume : R δ χ ν HttpAnswer :=
  match validateCloudeventsEnvelope rt.lang d.envelope with
  | some (field, detail) => return refuse 400 "cloudevents-invalid" (field ++ ": " ++ detail)
  | none =>
    let bytes := (envelopeId d.envelope).utf8ByteSize
    if bytes > maxIdempotencyKeyLength then
      return refuse 400 "cloudevents-id-too-long" ("CloudEvents id is " ++ toString bytes ++
        " bytes long; the maximum is " ++ toString maxIdempotencyKeyLength ++ " bytes")
    else claimAndRun rt ttlMs d

/-! ### Deliveries one after another -/

/-- What the deliveries share: the store, the cache and the network. -/
structure Server (δ χ ν : Type) where
  db : Database δ Body
  cache : χ
  network : ν

/-- What a delivery starts with: a new connection and a new interpreter. -/
def Server.arrive (srv : Server δ χ ν) : Exec (Connection δ Body) χ ν where
  repo := { committed := srv.db, answers := d.answers }
  cache := srv.cache
  network := srv.network
  now := d.clock

/-- The route on one delivery. -/
def Server.outcome (srv : Server δ χ ν) :
    EStateM.Result Exc (Exec (Connection δ Body) χ ν) HttpAnswer :=
  respondEventConsume rt ttlMs d (srv.arrive d)

/-- What the delivery is answered with; nothing where an exception leaves the route. -/
def Server.answer (srv : Server δ χ ν) : Option HttpAnswer :=
  match srv.outcome rt ttlMs d with
  | .ok a _ => some a
  | .error _ _ => none

/-- The server after the delivery, its connection closed. -/
def Server.deliver (srv : Server δ χ ν) : Server δ χ ν :=
  let s := Lib.EStateM.lastState (srv.outcome rt ttlMs d)
  { db := s.repo.committed, cache := s.cache, network := s.network }

/-- The server before the delivery number `n`. -/
def Server.before (srv : Server δ χ ν) (deliveries : Nat → Delivery) : Nat → Server δ χ ν
  | 0 => srv
  | n + 1 => (Server.before srv deliveries n).deliver rt ttlMs (deliveries n)

/-! ### One event -/

/-- The envelope is valid, and its id is not too long. -/
def Delivery.accepted (lang : Lang) (d : Delivery) : Bool :=
  (validateCloudeventsEnvelope lang d.envelope).isNone &&
    (envelopeId d.envelope).utf8ByteSize ≤ maxIdempotencyKeyLength

/-- The delivery claims its key and runs its workflow, from the state `s`. -/
def Server.Starts (srv : Server δ χ ν) (s : Exec (Connection δ Body) χ ν) : Prop :=
  d.accepted rt.lang ∧
    onRepo (Connection.idempotencyBegin d.key d.nowMs ttlMs) (srv.arrive d) = .ok .started s

/-- The driver knows of every SQL transaction that an exception of the run leaves open. -/
def Server.Tracks (srv : Server δ χ ν) : Prop :=
  ∀ s e t, srv.Starts rt ttlMs d s → consumeRun rt d s = .error e t →
    t.run.exec.repo.view.isSome → t.run.exec.repo.sqlTransactionOpen

/-- No delivery of the event up to the number `n` comes after the claim that the delivery number `m`
has left has expired. -/
def Server.WithinTtl (srv : Server δ χ ν) (deliveries : Nat → Delivery) (m n : Nat) : Prop :=
  ∀ j c, m < j → j ≤ n → (deliveries j).key = (deliveries m).key →
    (srv.before rt ttlMs deliveries (m + 1)).db.claims (deliveries m).key = some c →
    c.fresh ttlMs (deliveries j).nowMs

/-- No answer of 503 follows a committed write, and the deliveries of an event have the writes of one
run committed and one outcome. -/
structure Server.NeverReapplied (srv : Server δ χ ν) (deliveries : Nat → Delivery) : Prop where
  /-- the deliveries that are answered with 503 have committed nothing -/
  retry : ∀ n a, (srv.before rt ttlMs deliveries n).answer rt ttlMs (deliveries n) = some a →
    a.status = 503 →
    (srv.before rt ttlMs deliveries (n + 1)).db.data = (srv.before rt ttlMs deliveries n).db.data
  /-- a run whose writes are committed has the claim of its delivery -/
  claimed : ∀ n,
    (srv.before rt ttlMs deliveries (n + 1)).db.data ≠ (srv.before rt ttlMs deliveries n).db.data →
    ∃ c, (srv.before rt ttlMs deliveries (n + 1)).db.claims (deliveries n).key = some c ∧
      c.createdAt = (deliveries n).nowMs
  /-- the writes of one run are committed -/
  once : ∀ m n, m < n → (deliveries n).key = (deliveries m).key →
    srv.WithinTtl rt ttlMs deliveries m n →
    (srv.before rt ttlMs deliveries (m + 1)).db.data ≠ (srv.before rt ttlMs deliveries m).db.data →
    (srv.before rt ttlMs deliveries (n + 1)).db.data = (srv.before rt ttlMs deliveries n).db.data
  /-- an outcome is answered again, without a run; where the engine fails the SELECT of the claim,
  an exception leaves the route -/
  replayed : ∀ m n a, m < n → (deliveries n).key = (deliveries m).key →
    srv.WithinTtl rt ttlMs deliveries m n → (deliveries m).accepted rt.lang →
    (deliveries n).accepted rt.lang →
    (srv.before rt ttlMs deliveries m).answer rt ttlMs (deliveries m) = some a →
    a.status = 200 ∨ a.status = 422 →
    (∀ s, ¬(srv.before rt ttlMs deliveries n).Starts rt ttlMs (deliveries n) s) ∧
      (srv.before rt ttlMs deliveries (n + 1)).db = (srv.before rt ttlMs deliveries n).db ∧
      (srv.before rt ttlMs deliveries n).answer rt ttlMs (deliveries n) =
        if (deliveries n).answers.headD .done = .done then some a else none

end Lnpl.Serve
