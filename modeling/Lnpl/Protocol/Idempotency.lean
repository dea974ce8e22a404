import Lnpl.Lib.SortedJson
import Lnpl.Protocol.Invariants

/-!
# Idempotent requests

The dispatches and proposals that succeeded are recorded from the answers alone, in a ledger beside
the server: the key, the method, the other params and the result.  The law compares every request
to the ledger of those before it.
-/

namespace Lnpl.Protocol

open Lnpl.Lib Lnpl.Lib.Py

/-- A request to dispatch or to propose. -/
structure Operation where
  method : String
  handler : Handler
  params : Fields

/-- The operation that a request asks for, whatever the spelling of its method. -/
def operation? (request : Fields) : Option Operation :=
  if (field request "jsonrpc").eq (.str "2.0") then
    match field request "method", (field request "params").orElse (.dict []) with
    | .str method, .dict params =>
      match handlerOf method with
      | some .agentDispatch => some { method := method, handler := .agentDispatch, params := params }
      | some .irPropose => some { method := method, handler := .irPropose, params := params }
      | _ => none
    | _, _ => none
  else none

def Operation.key (op : Operation) : Value := field op.params "idempotency_key"

/-- The params beside the key. -/
def Operation.rest (op : Operation) : Fields :=
  op.params.filter fun entry => entry.1 != "idempotency_key"

/-- An operation that succeeded. -/
structure Success where
  key : Key
  method : String
  rest : Fields
  result : Value

/-- The same params, in whatever order of their items. -/
def SameParams (a b : Fields) : Prop := (Value.dict a).sorted = (Value.dict b).sorted

/-- The result of an answer. -/
def resultOf : Except Error Value → Option Value
  | .ok (.dict response) => field? response "result"
  | _ => none

/-- The ledger after a request: an operation that was answered with a result is recorded under its
key, once. -/
def ledgerAfter (setup : Setup) (s : Server) (ledger : List Success) (request : Fields) :
    List Success :=
  match operation? request, resultOf (s.handle setup request).2 with
  | some op, some result =>
    match op.key.hash with
    | .ok key =>
      if ledger.any fun success => success.key = key then ledger
      else ledger ++ [{ key := key, method := op.method, rest := op.rest, result := result }]
    | .error _ => ledger
  | _, _ => ledger

/-- One request, recorded. -/
def recordStep (setup : Setup) (state : Server × List Success) (request : Fields) :
    Option (Server × List Success) :=
  some ((state.1.handle setup request).1, ledgerAfter setup state.1 state.2 request)

/-- The handlers ran to their end once for each key in the ledger, and for no other request. -/
structure OncePerKey (s : Server) (ledger : List Success) : Prop where
  keys : (ledger.map Success.key).Nodup
  tasks : s.tasks.length = ledger.length
  proposals : s.proposals.length =
    ledger.countP fun success => handlerOf success.method = some .irPropose

/-- The request is answered with an error, and changes nothing. -/
def Refuses (setup : Setup) (s : Server) (request : Fields) : Prop :=
  ∃ e, s.handle setup request = (s, .ok (respond (field request "id") (.error e)))

/-- What an operation is answered, after those in the ledger. -/
structure AnswersOnce (setup : Setup) (s : Server) (ledger : List Success) (request : Fields)
    (op : Operation) : Prop where
  keyless : op.key.truthy = false → Refuses setup s request
  /-- A repeat is answered with the first result. -/
  repeated : ∀ success ∈ ledger, op.key.truthy = true → op.key.hash = .ok success.key →
    success.method = op.method → SameParams success.rest op.rest →
      s.handle setup request = (s, .ok (respond (field request "id") (.ok success.result)))
  mismatch : ∀ success ∈ ledger, op.key.truthy = true → op.key.hash = .ok success.key →
    ¬(success.method = op.method ∧ SameParams success.rest op.rest) →
      ∃ e : RpcError, e.type = .idempotencyMismatch ∧
        s.handle setup request = (s, .ok (respond (field request "id") (.error (.rpc e))))
  /-- A request that failed leaves its key free, and creates nothing. -/
  failed : resultOf (s.handle setup request).2 = none → Refuses setup s request

/-- The law, for every server, and every sequence of requests that all meet `C`. -/
def IdempotencyLaw (setup : Setup) (C : Server × List Success → Fields → Prop) : Prop :=
  ∀ (doc : Document) (s : Server) (ledger : List Success),
    Reaches (recordStep setup) C ({ doc := doc }, []) (s, ledger) →
      OncePerKey s ledger ∧ ∀ request op, C (s, ledger) request → operation? request = some op →
        AnswersOnce setup s ledger request op

/-- A request of JSON. -/
def JsonRequest (reader : Reader) (_ : Server × List Success) (request : Fields) : Prop :=
  (Value.dict request).Json reader

/-- A request of JSON that spells an operation with its dot, and repeats no key for the same params
with another method. -/
structure Guarded (reader : Reader) (state : Server × List Success) (request : Fields) : Prop where
  json : (Value.dict request).Json reader
  dotted : ∀ op, operation? request = some op → op.method ∈ idempotentMethods
  sameMethod : ∀ op, operation? request = some op → ∀ success ∈ state.2,
    op.key.hash = .ok success.key → SameParams success.rest op.rest → success.method = op.method

end Lnpl.Protocol
