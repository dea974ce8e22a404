import Lnpl.Lib.JsonLine
import Lnpl.Lib.PyText
import Lnpl.Serve.IfMatch
import Lnpl.Serve.Pagination
import Lnpl.Serve.Subscribe

/-!
# Reading requests and writing responses

What the workflow, list, event stream and event consume routes of `LnplWsgiApp` make of the texts of
a request.  A body is parsed as JSON of any strs and encoded again in digests and responses, before
and after the idempotency key is claimed; numbers in headers are found with `str.isdigit` and read
with `int`.  The run of a workflow, the store and the mask are parameters.
-/

namespace Lnpl.Serve.Requests

open Front (Python int64Max)
open Lib.JsonText (Text Json Fields Codecs codes encodeUtf8 field loads dumpsRaw isFinite IsSpelled)
open Lib.Percent (Scalar)
open IfMatch (parseIfMatch)
open Pagination (parseLimit)
open Subscribe (lastEventId)

/-! ### The language -/

/-- What leaves a handler. -/
inductive Escape where
  | /-- `ValueError` of `int`, of a number that `isdigit` lets through. -/
    valueError
  | /-- `RecursionError` of `json` or of `repr`. -/
    recursionError
  | unicodeEncodeError
  | /-- `OverflowError` of the store, whose numbers have 64 bits. -/
    overflowError
  deriving DecidableEq, Repr

/-- The running Python: its tables, the codecs of `json.loads`, how many containers `json` follows
inside each other, and what it writes for the float that a literal is. -/
structure Runtime where
  py : Python
  codecs : Codecs
  readRoom : Nat
  writeRoom : Nat
  spell : Text → Text
  /-- `repr`, which escapes lone surrogates -/
  repr : Json → Option String
  isSpelled_spell : ∀ literal, IsSpelled (spell literal)
  /-- There is room for what the server itself answers. -/
  le_writeRoom : 2 ≤ writeRoom

/-! ### Responses -/

/-- A response that has been sent. -/
structure Response where
  status : Nat
  body : Json

/-- JSON has no NaN and no infinity. -/
def Response.WellFormed (response : Response) : Prop :=
  response.body.Floats fun literal => isFinite literal = true

/-- `_TITLES`, of the problems of these routes. -/
def titles : List (String × String) :=
  [("idempotency-in-progress", "a request with this Idempotency-Key is already running"),
    ("idempotency-key-too-long", "the Idempotency-Key header value is too long"),
    ("idempotency-unsupported", "this server's repository driver cannot honour an idempotency key"),
    ("precondition-failed", "the If-Match version no longer matches the stored row"),
    ("precondition-invalid", "the If-Match header value is not a recognized ETag"),
    ("precondition-unsupported", "this workflow's first read cannot be evaluated against " ++
      "If-Match before it runs"),
    ("body-too-large", "request body too large"),
    ("body-unreadable", "request body is not a JSON object"),
    ("workflow-failed", "workflow execution failed"),
    ("cursor-invalid", "the `after` cursor could not be used"),
    ("limit-invalid", "the `limit` query parameter is out of range"),
    ("read-failed", "repository read failed"),
    ("cloudevents-invalid", "the CloudEvents envelope is invalid"),
    ("cloudevents-id-too-long", "the CloudEvents id is too long"),
    ("event-retry-later", "processing failed transiently -- retry after backing off")]

/-- `problem`. -/
def problem (status : Nat) (code detail : String) (correlationId : Option String) : Json :=
  let body := [(codes "title", Json.str (codes ((titles.lookup code).getD
      "the workflow rejected the request"))),
    (codes "status", .int status), (codes "code", .str (codes code)),
    (codes "detail", .str (codes detail))]
  match correlationId with
  | none => .dict body
  | some correlationId => .dict (body ++ [(codes "correlation_id", .str (codes correlationId))])

/-- Why a handler does not go on: a problem that it answers with, or an exception. -/
inductive Failure where
  | problem (status : Nat) (code detail : String)
  | escaped (escape : Escape)

/-- `json.dumps(body, ensure_ascii=False).encode("utf-8")`, whatever is done with the bytes. -/
def encoded (rt : Runtime) (body : Json) : Except Escape Text :=
  match dumpsRaw rt.spell rt.writeRoom body with
  | .error _ => .error .recursionError
  | .ok text => if Scalar text then .ok text else .error .unicodeEncodeError

/-- `_json_response`. -/
def jsonResponse (rt : Runtime) (status : Nat) (body : Json) : Except Escape Response :=
  (encoded rt body).map fun _ => ⟨status, body⟩

/-- The response to what a handler comes to. -/
def answer (rt : Runtime) (correlationId : Option String) :
    Except Failure (Nat × Json) → Except Escape Response
  | .ok (status, body) => jsonResponse rt status body
  | .error (.problem status code detail) =>
    jsonResponse rt status (problem status code detail correlationId)
  | .error (.escaped escape) => .error escape

/-! ### Bodies -/

/-- `MAX_BODY_BYTES`. -/
def maxBodyBytes : Int := 1 <<< 20

/-- `MAX_IDEMPOTENCY_KEY_LENGTH`. -/
def maxIdempotencyKeyLength : Nat := 255

/-- What a POST sends; `length` is what `int` makes of its `CONTENT_LENGTH`, unless that raises. -/
structure Body where
  length : Option Int
  input : List UInt8

/-- The bytes that are read. -/
def Body.raw (body : Body) : List UInt8 := body.input.take (body.length.getD 0).toNat

/-- `_read_json_body`. -/
def readJsonBody (rt : Runtime) (body : Body) : Except Failure Fields :=
  if maxBodyBytes < body.length.getD 0 then
    .error (.problem 413 "body-too-large" "request body exceeds 1048576 bytes")
  else if body.raw = [] then .ok []
  else
    match loads rt.codecs rt.readRoom body.raw with
    | .error .recursionError => .error (.escaped .recursionError)
    | .error .valueError =>
      .error (.problem 400 "body-unreadable" "request body is not valid JSON")
    | .ok (.dict payload) => .ok payload
    | .ok _ => .error (.problem 400 "body-unreadable" "request body must be a JSON object")

/-! ### The surroundings -/

/-- What `idempotency_begin` finds, if the driver has it. -/
inductive Begun where
  | unsupported
  | unclaimed
  | started
  | inProgress
  | done (status : Nat) (body : Json)

/-- What the store answers a list request with, behind `paginate`. -/
inductive Listed where
  | /-- `DriverError` -/
    failed
  | /-- `CursorError` -/
    mismatch
  | /-- The masked rows of the page, and the sort value and the key of its last one, if there are
    more. -/
    page (items : List Json) (last : Option (Json × Json))

/-- What stands behind the routes. -/
structure Service where
  /-- `_driver_name` -/
  driver : String
  begun : Text → Begun
  /-- `mask_payload` -/
  mask : Fields → Json
  /-- `_check_if_match` of a version: the problem that it answers; the store may not take the key
  of the row that it reads -/
  precondition : Fields → Nat → Except Escape (Option (Nat × String × String))
  /-- `default_rows`, which writes the ids of the payload into keys -/
  seed : Fields → Except Escape Unit
  /-- `run_workflow`, and the response to its result; `none` if it raises -/
  run : Fields → Option (Nat × Json)
  /-- Whether a claim is released when the consumed event is to be sent again. -/
  releases : Bool
  page : Option (Json × Json) → Nat → Listed
  /-- The rows that the polls of a stream read, which begins after a number; `none` without a
  repository -/
  polls : Option (Nat → List (List (Nat × Json)))

/-- What has become of the claim of a request. -/
inductive Claim where
  | none
  | /-- Finished or released. -/
    settled
  | /-- `ran`: the run has begun, and what it has done is not known. -/
    inProgress (ran : Bool)
  deriving DecidableEq, Repr

structure Outcome where
  claim : Claim
  answer : Except Escape Response

/-! ### The workflow route -/

/-- `_input_digest`, of which only that it is made matters. -/
def inputDigest (rt : Runtime) (masked : Json) : Except Escape Text := encoded rt masked

/-- What is made of a payload before it is run. -/
def prepared (rt : Runtime) (service : Service) (payload : Fields) : Except Escape Text := do
  service.seed payload
  inputDigest rt (service.mask payload)

/-- `POST` to a workflow, behind the authorization. -/
structure WorkflowRequest where
  body : Body
  /-- `Idempotency-Key` -/
  key : Option String
  /-- `If-Match` -/
  ifMatch : Option String
  correlationId : String

/-- `_check_if_match`, if there is a header. -/
def precondition (rt : Runtime) (service : Service) (payload : Fields) :
    Option String → Except Escape (Option (Nat × String × String))
  | none => .ok none
  | some header =>
    match parseIfMatch rt.py header with
    | .error _ => .error .valueError
    | .ok none => .ok (some (400, "precondition-invalid",
        "If-Match " ++ rt.py.repr header ++ " is not a recognized ETag"))
    | .ok (some version) => service.precondition payload version

/-- `claim` if this request has claimed its key. -/
def Claim.of (claimed : Bool) (claim : Claim) : Claim := if claimed then claim else .none

/-- `_respond`, behind the claim. -/
def respondClaimed (rt : Runtime) (service : Service) (r : WorkflowRequest) (payload : Fields)
    (claimed : Bool) : Outcome :=
  match precondition rt service payload r.ifMatch with
  | .error escape => ⟨.of claimed (.inProgress false), .error escape⟩
  | .ok (some (status, code, detail)) =>
    ⟨.of claimed .settled, answer rt r.correlationId (.error (.problem status code detail))⟩
  | .ok none =>
    match prepared rt service payload with
    | .error escape => ⟨.of claimed (.inProgress false), .error escape⟩
    | .ok _ =>
      match service.run payload with
      | none => ⟨.of claimed (.inProgress true),
          answer rt r.correlationId
            (.error (.problem 500 "workflow-failed" "internal server error"))⟩
      | some response => ⟨.of claimed .settled, answer rt none (.ok response)⟩

/-- `_respond`. -/
def respond (rt : Runtime) (service : Service) (r : WorkflowRequest) (payload : Fields) : Outcome :=
  match (r.key.map fun key => service.begun (codes key)).getD .unclaimed with
  | .unsupported =>
    ⟨.none, answer rt r.correlationId (.error (.problem 501 "idempotency-unsupported"
      ("repository driver " ++ service.driver ++ " does not support Idempotency-Key (it does " ++
        "not implement idempotency_begin, idempotency_finish and idempotency_release); install " ++
        "or upgrade to a driver that implements them, or resend the request without the " ++
        "Idempotency-Key header")))⟩
  | .inProgress => ⟨.none, answer rt r.correlationId (.error (.problem 409 "idempotency-in-progress"
      "a request with this Idempotency-Key is already running"))⟩
  | .done status body => ⟨.none, answer rt none (.ok (status, body))⟩
  | .unclaimed => respondClaimed rt service r payload false
  | .started => respondClaimed rt service r payload true

/-- `_do_post` of a workflow route; a header has one byte for each character. -/
def postWorkflow (rt : Runtime) (service : Service) (r : WorkflowRequest) : Outcome :=
  match readJsonBody rt r.body with
  | .error failure => ⟨.none, answer rt none (.error failure)⟩
  | .ok payload =>
    if r.key.any fun key => maxIdempotencyKeyLength < key.length then
      ⟨.none, answer rt none (.error (.problem 400 "idempotency-key-too-long"
        ("Idempotency-Key is " ++ toString (r.key.getD "").length ++
          " bytes long; the maximum is 255 bytes")))⟩
    else respond rt service r payload

/-! ### The event consume route -/

/-- `_CLOUDEVENTS_REQUIRED`. -/
def cloudeventsRequired : List String := ["specversion", "id", "source", "type"]

def isNonemptyText : Json → Bool
  | .str text => text ≠ []
  | _ => false

/-- The characters of a JSON str, or none. -/
def textOf : Json → Text
  | .str text => text
  | _ => []

/-- `repr(value)` in a detail. -/
def shown (rt : Runtime) (front : String) (value : Json) : Except Failure String :=
  match rt.repr value with
  | none => .error (.escaped .recursionError)
  | some text => .ok (front ++ text)

/-- `datacontenttype` as it is checked. -/
def validateContentType (rt : Runtime) (fields : Fields) :
    Except Failure (Option (String × String)) :=
  match field fields "datacontenttype" with
  | .null => .ok none
  | .str text =>
    if Lib.PyText.strip (text.takeWhile (· ≠ ';'.toNat)) = codes "application/json" then .ok none
    else (shown rt "only \"application/json\" is accepted, got " (.str text)).map fun detail =>
      some ("datacontenttype", detail)
  | value => (shown rt "must be a string, got " value).map fun detail =>
      some ("datacontenttype", detail)

/-- `_validate_cloudevents_envelope`. -/
def validateCloudevents (rt : Runtime) (fields : Fields) :
    Except Failure (Option (String × String)) :=
  match cloudeventsRequired.find? fun name => !isNonemptyText (field fields name) with
  | some name => .ok (some (name, "'" ++ name ++ "' must be a non-empty string"))
  | none =>
    if ¬Scalar (textOf (field fields "id")) then
      .ok (some ("id",
        "'id' must be encodable as UTF-8 (it contains an unpaired surrogate)"))
    else if textOf (field fields "specversion") ≠ codes "1.0" then
      (shown rt "must be \"1.0\", got " (field fields "specversion")).map fun detail =>
        some ("specversion", detail)
    else if (fields.lookup (codes "data_base64")).isSome then
      .ok (some ("data_base64", "binary-mode CloudEvents are not accepted -- send a structured " ++
        "JSON envelope with `data` instead"))
    else do
      match ← validateContentType rt fields with
      | some invalid => return some invalid
      | none =>
        match (fields.lookup (codes "data")).getD (.dict []) with
        | .dict _ => return none
        | _ => return some ("data", "must be a JSON object when present")

/-- `POST` to an event route, behind the authorization. -/
structure EventRequest where
  body : Body
  correlationId : String

/-- The data of an envelope, `{}` if there are none. -/
def dataOf (fields : Fields) : Fields :=
  match field fields "data" with
  | .dict data => data
  | _ => []

/-- What is left of a claim that is to be released. -/
def released (service : Service) : Claim :=
  if service.releases then .settled else .inProgress true

/-- The run of a consumed event. -/
def consumeClaimed (rt : Runtime) (service : Service) (r : EventRequest) (data : Fields)
    (claimed : Bool) : Outcome :=
  match service.seed data with
  | .error escape => ⟨.of claimed (.inProgress false), .error escape⟩
  | .ok () =>
    match service.run data with
    | none => ⟨.of claimed (released service), answer rt r.correlationId
        (.error (.problem 503 "event-retry-later" "internal server error"))⟩
    | some (status, body) =>
      ⟨.of claimed (if status = 503 then released service else .settled),
        answer rt none (.ok (status, body))⟩

/-- `_respond_event_consume`, behind its checks. -/
def consumeValid (rt : Runtime) (service : Service) (r : EventRequest) (fields : Fields) :
    Outcome :=
  match service.begun (textOf (field fields "id")) with
  | .unsupported =>
    ⟨.none, answer rt r.correlationId (.error (.problem 501 "idempotency-unsupported"
      ("repository driver " ++ service.driver ++ " does not support idempotency (it does not " ++
        "implement idempotency_begin, idempotency_finish and idempotency_release), and this " ++
        "route uses the CloudEvents id as its idempotency key; install or upgrade to a driver " ++
        "that implements them")))⟩
  | .inProgress => ⟨.none, answer rt r.correlationId (.error (.problem 409 "idempotency-in-progress"
      "a request with this CloudEvents id is already running"))⟩
  | .done status body => ⟨.none, answer rt none (.ok (status, body))⟩
  | .unclaimed => consumeClaimed rt service r (dataOf fields) false
  | .started => consumeClaimed rt service r (dataOf fields) true

/-- `_do_post` of an event route. -/
def postEvent (rt : Runtime) (service : Service) (r : EventRequest) : Outcome :=
  match readJsonBody rt r.body with
  | .error failure => ⟨.none, answer rt none (.error failure)⟩
  | .ok fields =>
    match validateCloudevents rt fields with
    | .error failure => ⟨.none, answer rt none (.error failure)⟩
    | .ok (some (name, detail)) => ⟨.none,
        answer rt none (.error (.problem 400 "cloudevents-invalid" (name ++ ": " ++ detail)))⟩
    | .ok none =>
      let length := (encodeUtf8 (textOf (field fields "id"))).length
      if maxIdempotencyKeyLength < length then
        ⟨.none, answer rt none (.error (.problem 400 "cloudevents-id-too-long"
          ("CloudEvents id is " ++ toString length ++ " bytes long; the maximum is 255 bytes")))⟩
      else consumeValid rt service r fields

/-! ### The list route -/

/-- The bytes of a cursor, if it is base64. -/
def cursorBytes (token : String) : Option (List UInt8) :=
  if token.toList.any fun ch => 128 ≤ ch.toNat then none
  else (Lib.Base64.decode (Lib.Base64.pad token.toList)).toOption

/-- The `CursorError` with this text, as it is answered. -/
def cursorInvalid (detail : String) : Failure := .problem 400 "cursor-invalid" detail

/-- `decode_cursor`. -/
def decodeCursor (rt : Runtime) (token : String) : Except Failure (Json × Json) :=
  match cursorBytes token with
  | none => .error (cursorInvalid "cursor is not valid base64/JSON")
  | some raw =>
    match loads rt.codecs rt.readRoom raw with
    | .error .recursionError => .error (.escaped .recursionError)
    | .error .valueError => .error (cursorInvalid "cursor is not valid base64/JSON")
    | .ok (.dict data) =>
      match data.lookup (codes "v"), data.lookup (codes "k") with
      | some value, some key => .ok (value, key)
      | _, _ => .error (cursorInvalid "cursor is missing the expected v/k shape")
    | .ok _ => .error (cursorInvalid "cursor is missing the expected v/k shape")

/-- What `encode_cursor` encodes. -/
def cursorBody (last : Json × Json) : Json := .dict [(codes "v", last.1), (codes "k", last.2)]

/-- `encode_cursor`. -/
def encodeCursor (rt : Runtime) (last : Json × Json) : Except Escape Text :=
  (encoded rt (cursorBody last)).map fun text =>
    (Lib.Base64.strip (Lib.Base64.encode (encodeUtf8 text))).map Char.toNat

/-- The parameters of a query string, as `parse_qs` gives them: it reads no lone surrogates. -/
structure ListRequest where
  limit : Option String
  after : Option String
  correlationId : String

/-- The page size and the cursor of a request. -/
def readPage (rt : Runtime) (r : ListRequest) : Except Failure (Nat × Option (Json × Json)) :=
  match parseLimit rt.py r.limit with
  | .error detail => .error (.problem 400 "limit-invalid" detail)
  | .ok limit =>
    match r.after with
    | none => .ok (limit, none)
    | some token => (decodeCursor rt token).map fun after => (limit, some after)

def listBody (items : List Json) (next : Json) : Json :=
  .dict [(codes "items", .list items), (codes "next", next)]

/-- `_get_list`, behind the store. -/
def respondList (rt : Runtime) (correlationId : String) : Listed → Except Escape Response
  | .failed => answer rt correlationId
      (.error (.problem 500 "read-failed" "internal server error"))
  | .mismatch => answer rt none
      (.error (cursorInvalid "cursor does not match this field's type"))
  | .page items none => jsonResponse rt 200 (listBody items .null)
  | .page items (some last) =>
    match encodeCursor rt last with
    | .error escape => .error escape
    | .ok next => jsonResponse rt 200 (listBody items (.str next))

/-- `_get_list`. -/
def getList (rt : Runtime) (service : Service) (r : ListRequest) : Outcome :=
  match readPage rt r with
  | .error failure => ⟨.none, answer rt none (.error failure)⟩
  | .ok (limit, after) => ⟨.none, respondList rt r.correlationId (service.page after limit)⟩

/-! ### The event stream route -/

/-- The frames of the rows that a poll has read. -/
def frames (rt : Runtime) : List (Nat × Json) → Except Escape (List Text)
  | [] => .ok []
  | (seq, payload) :: rows =>
    match encoded rt payload with
    | .error escape => .error escape
    | .ok text => (frames rt rows).map
        ((codes ("id: " ++ toString seq ++ "\ndata: ") ++ text ++ codes "\n\n") :: ·)

/-- `_sse_frames`: the frames of what the polls have read; the first one binds the number. -/
def sseFrames (rt : Runtime) (service : Service) (afterSeq : Nat) : Except Escape (List Text) :=
  match service.polls with
  | none => .ok []
  | some polls =>
    if int64Max < afterSeq then .error .overflowError else frames rt (polls afterSeq).flatten

/-- `_subscribe`; the body of the response are the frames. -/
def subscribe (rt : Runtime) (service : Service) (header : Option String) : Outcome :=
  match lastEventId rt.py header with
  | .error (.cursorInvalid detail) =>
    ⟨.none, answer rt none (.error (cursorInvalid detail))⟩
  | .error (.raised _) => ⟨.none, .error .valueError⟩
  | .ok afterSeq => ⟨.none, (sseFrames rt service afterSeq).map fun _ => ⟨200, .null⟩⟩

/-! ### The contract -/

/-- A request to one of the routes. -/
inductive Request where
  | workflow (r : WorkflowRequest)
  | event (r : EventRequest)
  | list (r : ListRequest)
  | stream (lastEventId : Option String)

def handle (rt : Runtime) (service : Service) : Request → Outcome
  | .workflow r => postWorkflow rt service r
  | .event r => postEvent rt service r
  | .list r => getList rt service r
  | .stream header => subscribe rt service header

/-- **A request is answered**: its response is well formed, and it leaves no claim in progress
unless its run has begun. -/
structure Answered (outcome : Outcome) : Prop where
  answer : ∃ response, outcome.answer = .ok response ∧ response.WellFormed
  claim : outcome.claim ≠ .inProgress false

/-- It is not nested too deep to be written, and has no lone surrogate. -/
def Encodable (rt : Runtime) (value : Json) : Prop :=
  value.nesting ≤ rt.writeRoom ∧ value.Strs Scalar

/-- It can be a body: its floats are finite, too. -/
def Writable (rt : Runtime) (value : Json) : Prop :=
  Encodable rt value ∧ value.Floats fun literal => isFinite literal = true

/-- Bytes that are not nested deeper than `json.loads` follows. -/
def Shallow (rt : Runtime) (bytes : List UInt8) : Prop :=
  loads rt.codecs rt.readRoom bytes ≠ .error .recursionError

/-- What `isdigit` lets through, `int` converts. -/
def Convertible (py : Python) (text : List Char) : Prop :=
  py.isdigit (String.ofList text) = true →
    text.length ≤ Front.intMaxStrDigits ∧ ∀ ch ∈ text, (py.decimal ch).isSome

/-- The text between the quotes of an `If-Match`. -/
def quoted (value : String) : Option (List Char) :=
  let text := IfMatch.strip value.toList
  let text := if ['W', '/'].isPrefixOf text then text.drop 2 else text
  if text.length < 2 ∨ text.head? ≠ some '"' ∨ text.getLast? ≠ some '"' then none
  else some text.tail.dropLast

/-- The body is too large, empty, or shallow. -/
def Body.Fits (rt : Runtime) (body : Body) : Prop :=
  body.length.getD 0 ≤ maxBodyBytes → body.raw ≠ [] → Shallow rt body.raw

/-- What a key has been claimed for can be written: a stored response, or what `p` says of a run. -/
def Begun.Fits (rt : Runtime) (p : Prop) : Begun → Prop
  | .unsupported | .inProgress => True
  | .done _ body => Writable rt body
  | .unclaimed | .started => p

/-- The header can be read, and the store takes the key of the row that its version is compared
with. -/
def HeaderFits (rt : Runtime) (service : Service) (payload : Fields) (header : String) : Prop :=
  (∀ digits ∈ quoted header, Convertible rt.py digits) ∧
    ∀ version, parseIfMatch rt.py header = .ok (some version) →
      ∀ escape, service.precondition payload version ≠ .error escape

/-- A payload whose rows can be seeded is run, and the response written. -/
def EventFits (rt : Runtime) (service : Service) (data : Fields) : Prop :=
  service.seed data = .ok () ∧ ∀ response ∈ service.run data, Writable rt response.2

/-- The header fits, and unless it stops the request, the rows can be seeded, the masked payload
digested and the response written. -/
def RunFits (rt : Runtime) (service : Service) (r : WorkflowRequest) (payload : Fields) : Prop :=
  (∀ header ∈ r.ifMatch, HeaderFits rt service payload header) ∧
    (precondition rt service payload r.ifMatch = .ok none →
      Encodable rt (service.mask payload) ∧ EventFits rt service payload)

/-- **What the routes can answer**: everything that is parsed, digested or written on the way goes
through. -/
def Fits (rt : Runtime) (service : Service) : Request → Prop
  | .workflow r => r.body.Fits rt ∧ ∀ payload, readJsonBody rt r.body = .ok payload →
      (∀ key ∈ r.key, key.length ≤ maxIdempotencyKeyLength) →
        ((r.key.map fun key => service.begun (codes key)).getD .unclaimed).Fits rt
          (RunFits rt service r payload)
  | .event r => r.body.Fits rt ∧ ∀ fields, readJsonBody rt r.body = .ok fields →
      (∀ escape, validateCloudevents rt fields ≠ .error (.escaped escape)) ∧
        (validateCloudevents rt fields = .ok none →
          (encodeUtf8 (textOf (field fields "id"))).length ≤ maxIdempotencyKeyLength →
            (service.begun (textOf (field fields "id"))).Fits rt
              (EventFits rt service (dataOf fields)))
  | .list r => (∀ limit, parseLimit rt.py r.limit = .ok limit →
      ∀ token ∈ r.after, ∀ raw ∈ cursorBytes token, Shallow rt raw) ∧
        ∀ limit after items last, readPage rt r = .ok (limit, after) →
          service.page after limit = .page items last →
            Writable rt (listBody items .null) ∧ ∀ pair ∈ last, Encodable rt (cursorBody pair)
  | .stream header => (∀ text ∈ header, Convertible rt.py text.toList) ∧
      ∀ afterSeq polls, lastEventId rt.py header = .ok afterSeq → service.polls = some polls →
        afterSeq ≤ int64Max ∧ ∀ row ∈ (polls afterSeq).flatten, Encodable rt row.2

/-- `_parse_if_match` reads a version only of a run of ASCII digits in quotes. -/
def ReadsTag (py : Python) (value : String) : Prop :=
  ∀ version, parseIfMatch py value = .ok (some version) → ∃ digits, quoted value = some digits ∧
    digits ≠ [] ∧ (∀ ch ∈ digits, ch.isDigit = true) ∧ version = Nat.ofDigitChars 10 digits 0

/-- The digits that `int` converts are those of ASCII. -/
def TagFits (py : Python) (value : String) : Prop :=
  ∀ digits ∈ quoted value, py.isdigit (String.ofList digits) = true →
    digits.length ≤ Front.intMaxStrDigits → (∀ ch ∈ digits, (py.decimal ch).isSome) →
      ∀ ch ∈ digits, ch.isDigit = true

end Lnpl.Serve.Requests
