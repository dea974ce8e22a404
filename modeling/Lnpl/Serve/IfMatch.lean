import Lnpl.Drivers.Connections
import Lnpl.Front.Lexer
import Lnpl.Interp.Values
import Lnpl.Lib.Runs

/-!
# Requests with `If-Match`

A client has read a row and its ETag, and sends a request that is conditioned on it.  The request
compares the version of the row in one statement (`checkIfMatch`), and then runs its workflow, which
reads the row again for itself.  Any other connections work on the store in between.

The connection that answered the GET does nothing else and stays as it is; what it has read is what
the client has seen.  The row object of the check is handed to nobody, so its SELECT binds none.
-/

namespace Lnpl.Serve.IfMatch

open Lnpl.Drivers.Sqlite Lnpl.Front Lnpl.Lib
open Lnpl.Drivers.Connections (Birth)
open Lnpl.Interp (RunError callerNamespace payloadNamespace)

/-! ### The ETag -/

/-- `_etag_value`. -/
def etagValue (version : Nat) : String := "W/\"" ++ toString version ++ "\""

/-- `value.strip()`. -/
def strip (text : List Char) : List Char :=
  ((text.dropWhile isSpace).reverse.dropWhile isSpace).reverse

/-- `_parse_if_match`; `int` may raise. -/
def parseIfMatch (py : Python) (value : String) : Except Fault (Option Nat) :=
  let text := strip value.toList
  let text := if ['W', '/'].isPrefixOf text then text.drop 2 else text
  if text.length < 2 ∨ text.head? ≠ some '"' ∨ text.getLast? ≠ some '"' then .ok none
  else
    let digits := text.tail.dropLast
    if !py.isdigit (String.ofList digits) then .ok none
    else some <$> py.int digits

/-! ### The precondition -/

/-- What `_check_if_match` returns: nothing, the response to send, or an exception. -/
inductive Precondition where
  | proceed
  | refused (status : Nat) (code detail : String)
  | raised (e : Fault)
  deriving DecidableEq, Repr

/-- The reference names a binding of the run, or a network result. -/
def computedInRun (lookup : Option String) : Bool :=
  match lookup.map fun ref => ref.toList.splitOn '.' with
  | some (binding :: _ :: _) =>
    String.ofList binding ≠ payloadNamespace && String.ofList binding ≠ callerNamespace
  | _ => false

variable {ε κ : Type}

/-- `_check_if_match`.  `reads` are the entities that the workflow reads, in declared order;
`lookup` is `lookup_key_source` and `resolve` `_resolve_lookup_key`; `read` answers the
`observed_version` of the row, if it finds one and it has one. -/
def checkIfMatch (py : Python) (ifMatch : String) (reads : List ε) (lookup : ε → Option String)
    (resolve : ε → Except RunError κ) (read : ε → κ → Except Unit (Option (Option Nat))) :
    Precondition :=
  match parseIfMatch py ifMatch with
  | .error e => .raised e
  | .ok none =>
    .refused 400 "precondition-invalid" s!"If-Match {py.repr ifMatch} is not a recognized ETag"
  | .ok (some claimedVersion) =>
    match reads with
    | [] => .proceed
    | entity :: _ =>
      if computedInRun (lookup entity) then
        .refused 400 "precondition-unsupported" ("this workflow's first read uses a key " ++
          "computed during the run, so If-Match cannot be evaluated")
      else
        match resolve entity with
        | .error _ =>
          .refused 400 "precondition-unsupported" ("the lookup key " ++
            ((lookup entity).getD "None") ++ " is absent from the request, so If-Match cannot " ++
            "be evaluated")
        | .ok key =>
          match read entity key with
          | .error _ => .proceed
          | .ok none =>
            .refused 412 "precondition-failed"
              "the row this request's If-Match names does not exist"
          | .ok (some none) => .proceed
          | .ok (some (some observed)) =>
            if observed ≠ claimedVersion then
              .refused 412 "precondition-failed"
                "the row has changed since If-Match's version was read"
            else .proceed

/-! ### The system -/

/-- The request, and the row that it is conditioned on: the one that the first read of its workflow
names. -/
structure Request (ε κ ρ : Type) where
  /-- the connection that answered the client's GET -/
  getConn : ρ
  /-- the connection of the request -/
  conn : ρ
  distinct : getConn ≠ conn
  entity : ε
  later : List ε
  lookup : ε → Option String
  resolve : ε → Except RunError κ
  key : κ
  static : computedInRun (lookup entity) = false
  resolves : resolve entity = .ok key

inductive Phase (P : Type) where
  | waiting
  /-- a response of `_check_if_match`, or 500 -/
  | refused (status : Nat)
  | running
  /-- 200; if the run wrote the conditioned row, what that row held until then, if it was there -/
  | ok (replaced : Option (Option P))
  /-- the run failed, and was rolled back -/
  | failed
  deriving DecidableEq, Repr

variable {P ρ : Type} [DecidableEq ε] [DecidableEq κ] [DecidableEq P] [DecidableEq ρ] [Ord κ]
  [Std.TransOrd κ]

/-- The store and its connections, what the client has seen, and the request. -/
structure State (ε κ P ρ : Type) [Ord κ] where
  db : Drivers.Connections.State ε κ P ρ
  seen : Option (Row P (Birth ρ)) := none
  phase : Phase P := .waiting

inductive Action (ε κ P ρ : Type) where
  /-- a statement of another connection -/
  | other (a : Drivers.Connections.Action ε κ P ρ)
  /-- the client's GET of the row -/
  | get
  /-- `_check_if_match`; the engine may fail its SELECT -/
  | check (ifMatch : String) (fails : Bool)
  /-- a statement of the run -/
  | run (a : Drivers.Connections.Action ε κ P ρ)
  | commit
  | rollback

/-- The run has written the conditioned row: what that row holds until the commit. -/
def State.replaced (q : Request ε κ ρ) (s : State ε κ P ρ) : Option (Option P) :=
  match (s.db.conn q.conn).txn with
  | .writing view =>
    if view.get q.entity q.key = s.db.committed.get q.entity q.key then none
    else some ((s.db.committed.get q.entity q.key).map Row.payload)
  | _ => none

/-- `_check_if_match` of the request, in the state in which its SELECT is executed. -/
def State.precondition (py : Python) (q : Request ε κ ρ) (s : State ε κ P ρ) (ifMatch : String)
    (fails : Bool) : Precondition :=
  checkIfMatch py ifMatch (q.entity :: q.later) q.lookup q.resolve fun e k =>
    if fails then .error ()
    else .ok ((selectRow s.db.committed e k).map fun row => some row.version)

/-- One step; `encodeId` is as in `Connections.step`. -/
def step (py : Python) (encodeId : κ → P) (q : Request ε κ ρ) (s : State ε κ P ρ) :
    Action ε κ P ρ → Option (State ε κ P ρ)
  | .other a =>
    if a.conn ≠ q.getConn ∧ a.conn ≠ q.conn then
      (Drivers.Connections.step encodeId s.db a).map fun db => { s with db := db }
    else none
  | .get =>
    match s.phase, s.seen, selectRow s.db.committed q.entity q.key with
    | .waiting, none, some row =>
      (exec (Drivers.Connections.step encodeId) s.db
        [.begin q.getConn, .read q.getConn q.entity q.key]).map fun db =>
          { s with db := db, seen := some row }
    | _, _, _ => none
  | .check ifMatch fails =>
    -- the client sends the ETag of what it has seen
    if s.phase = .waiting ∧ s.seen.map (fun row => etagValue row.version) = some ifMatch then
      (exec (Drivers.Connections.step encodeId) s.db
        [.begin q.conn, .query q.conn q.entity]).map fun db =>
        match s.precondition py q ifMatch fails with
        | .proceed => { s with db := db, phase := .running }
        | .refused status _ _ => { s with db := db, phase := .refused status }
        | .raised _ => { s with db := db, phase := .refused 500 }
    else none
  | .run a =>
    if s.phase = .running ∧ a.conn = q.conn ∧ a.ends = false then
      (Drivers.Connections.step encodeId s.db a).map fun db => { s with db := db }
    else none
  | .commit =>
    if s.phase = .running then
      (Drivers.Connections.step encodeId s.db (.commit q.conn)).map fun db =>
        { s with db := db, phase := .ok (s.replaced q) }
    else none
  | .rollback =>
    if s.phase = .running then
      (Drivers.Connections.step encodeId s.db (.rollback q.conn)).map fun db =>
        { s with db := db, phase := .failed }
    else none

/-! ### The law -/

/-- Answered with 200 after its run wrote the conditioned row, the request replaced what the client
has seen. -/
def Enforced (s : State ε κ P ρ) : Prop :=
  ∀ content, s.phase = .ok (some content) → ∃ row, s.seen = some row ∧ content = some row.payload

/-- A step of the request commits something only where it is answered with 200. -/
def AnsweredFor (a : Action ε κ P ρ) (s t : State ε κ P ρ) : Prop :=
  match a with
  | .other _ => True
  | _ => t.db.committed = s.db.committed ∨ ∃ replaced, t.phase = .ok replaced

/-- The law, for every store to begin with, and every run whose steps all meet `C`. -/
def IfMatchLaw (ε κ P ρ : Type) [DecidableEq ε] [DecidableEq κ] [DecidableEq P] [DecidableEq ρ]
    [Ord κ] [Std.TransOrd κ]
    (C : Request ε κ ρ → State ε κ P ρ → Action ε κ P ρ → Prop) : Prop :=
  ∀ (py : Python) (encodeId : κ → P) (q : Request ε κ ρ) (T : Tables ε κ (P × Nat))
    (s : State ε κ P ρ),
    Reaches (step py encodeId q) (C q) { db := Drivers.Connections.State.init T } s →
      Enforced s ∧ ∀ a t, step py encodeId q s a = some t → AnsweredFor a s t

/-! ### When it holds -/

/-- The row is the one the client has seen, not another one with the same key, and it has not been
written to since. -/
def State.SameAsSeen (s : State ε κ P ρ) (row : Row P (Birth ρ)) : Prop :=
  ∃ o, s.seen = some o ∧ row.born = o.born ∧ row.version = o.version

/-- The run has not written the conditioned row yet. -/
def State.Unwritten (q : Request ε κ ρ) (s : State ε κ P ρ) : Prop :=
  ∀ view, (s.db.conn q.conn).txn = .writing view →
    view.get q.entity q.key = s.db.committed.get q.entity q.key

/-- The rows that a write statement of the run would work on hold the row that the client has seen,
if they hold one. -/
def State.WritesSeen (q : Request ε κ ρ) (s : State ε κ P ρ) : Prop :=
  ∀ R row, s.db.writable q.conn = some R → R.get q.entity q.key = some row → s.SameAsSeen row

/-- The condition on a write of the run to the conditioned row, as long as the run has not written
it: an update or a delete, and a `persist` of a row that the run created, meets the row that the
client has seen, and so did the read that bound the row of any other `persist`, unless that
`persist` fails; it does not meet another row that has counted up to the version it was bound with;
and the run does not create the row. -/
def Steady (q : Request ε κ ρ) (s : State ε κ P ρ) : Action ε κ P ρ → Prop
  | .run (.touchUpdate _) => s.Unwritten q →
      ∀ current, (s.db.conn q.conn).touch = some (q.entity, q.key, current) → s.WritesSeen q
  | .run (.delete _ e k) => (e = q.entity ∧ k = q.key) → s.Unwritten q → s.WritesSeen q
  | .run (.persistCreated _ e k _) => (e = q.entity ∧ k = q.key) → s.Unwritten q → s.WritesSeen q
  | .run (.create _ e k) => (e = q.entity ∧ k = q.key) → s.Unwritten q →
      ∀ R, s.db.writable q.conn = some R → R.get q.entity q.key ≠ none
  | .run (.persist _ e k _) => (e = q.entity ∧ k = q.key) → s.Unwritten q →
      ∀ b R row, (s.db.conn q.conn).bound q.entity q.key = some b →
        s.db.writable q.conn = some R → R.get q.entity q.key = some row →
        row.version = b.version → s.SameAsSeen b ∧ row.born = b.born
  | _ => True

end Lnpl.Serve.IfMatch
