import Mathlib.Logic.Function.Basic
import Lnpl.Lib.Runs

/-!
# The idempotency table of `SqliteRepositoryDriver`

`idempotency_begin`, `idempotency_finish` and `idempotency_release` work on one table shared by
every connection.  Each of their statements is committed on its own, so a call is a sequence of
atomic statements between which other requests run.  The statements are modelled first
(`selectIdempotency`, `deleteIdempotency`, `insertInProgress`, `updateDone`); `step` lets any
number of requests execute them in any order, and `idempotencyBegin` is the call that no other
request interrupts.
-/

namespace Lnpl.Drivers.Idempotency

/-- The `status` column. -/
inductive Status where
  | inProgress
  | done
deriving DecidableEq, Repr

/-- A row of `lnpl_idempotency` below its primary key.  `β` is the stored answer body. -/
structure Claim (β : Type) where
  status : Status
  httpStatus : Option Nat
  body : Option β
  createdAt : Int
deriving DecidableEq, Repr

/-- What `idempotency_begin` answers. -/
inductive Answer (β : Type) where
  | started
  | inProgress
  | done (httpStatus : Option Nat) (body : Option β)
deriving DecidableEq, Repr

/-- The table, by primary key `(workflow_id, key)`. -/
abbrev Table (κ β : Type) := κ → Option (Claim β)

variable {κ β ρ : Type} [DecidableEq κ] [DecidableEq ρ]

/-! ### The statements -/

/-- `_SELECT_IDEMPOTENCY`. -/
def selectIdempotency (T : Table κ β) (k : κ) : Option (Claim β) := T k

/-- `_DELETE_IDEMPOTENCY`: no error when the key has no row. -/
def deleteIdempotency (T : Table κ β) (k : κ) : Table κ β := Function.update T k none

/-- `_INSERT_IDEMPOTENCY_IN_PROGRESS`; `none` is the `IntegrityError` of the primary key. -/
def insertInProgress (T : Table κ β) (k : κ) (nowMs : Int) : Option (Table κ β) :=
  match T k with
  | some _ => none
  | none =>
    let c := { status := .inProgress, httpStatus := none, body := none, createdAt := nowMs }
    some (Function.update T k (some c))

/-- `_UPDATE_IDEMPOTENCY_DONE`: whatever row has the key, and none if there is none. -/
def updateDone (T : Table κ β) (k : κ) (httpStatus : Nat) (body : β) : Table κ β :=
  Function.update T k ((T k).map fun c =>
    { c with status := .done, httpStatus := some httpStatus, body := some body })

/-- `now_ms - created_at < ttl_ms`. -/
def Claim.fresh (ttlMs nowMs : Int) (c : Claim β) : Bool := nowMs - c.createdAt < ttlMs

/-- The answer to a fresh row. -/
def Claim.answer (c : Claim β) : Answer β :=
  match c.status with
  | .inProgress => .inProgress
  | .done => .done c.httpStatus c.body

/-- `idempotency_begin` when nothing else runs between its statements. -/
def idempotencyBegin (ttlMs : Int) (T : Table κ β) (k : κ) (nowMs : Int) :
    Answer β × Table κ β :=
  match selectIdempotency T k with
  | some c =>
    if c.fresh ttlMs nowMs then (c.answer, T)
    else
      let T' := deleteIdempotency T k
      match insertInProgress T' k nowMs with
      | some T'' => (.started, T'')
      | none => (.inProgress, T')
  | none =>
    match insertInProgress T k nowMs with
    | some T' => (.started, T')
    | none => (.inProgress, T)

/-! ### Interleaved requests -/

/-- Where a request stands.  `nowMs` is the time it passed to `idempotency_begin`. -/
inductive Phase (β : Type) where
  | idle
  | arrived (nowMs : Int)
  /-- the SELECT found an expired row -/
  | expired (nowMs : Int)
  /-- the key is clear (no row found, or the expired one deleted): INSERT next -/
  | clear (nowMs : Int)
  | started (nowMs : Int)
  | refused (answer : Answer β)
  | finished (nowMs : Int)
  | released
deriving DecidableEq, Repr

/-- The shared store and the requests.  `owner` is bookkeeping of the model: which request
inserted the row stored under a key. -/
structure State (κ β ρ : Type) where
  table : Table κ β
  owner : κ → Option ρ
  clock : Int
  phase : ρ → Phase β

/-- One atomic step: a statement of one request, or time passing. -/
inductive Action (β ρ : Type) where
  | tick (d : Nat)
  | arrive (r : ρ)
  | select (r : ρ)
  | delete (r : ρ)
  | insert (r : ρ)
  | finish (r : ρ) (httpStatus : Nat) (body : β)
  | release (r : ρ)

/-- The step function of all requests; request `r` works on the key `key r`. -/
def step (ttlMs : Int) (key : ρ → κ) (s : State κ β ρ) : Action β ρ → Option (State κ β ρ)
  | .tick d => some { s with clock := s.clock + d }
  | .arrive r =>
    match s.phase r with
    | .idle => some { s with phase := Function.update s.phase r (.arrived s.clock) }
    | _ => none
  | .select r =>
    match s.phase r with
    | .arrived now =>
      match selectIdempotency s.table (key r) with
      | none => some { s with phase := Function.update s.phase r (.clear now) }
      | some c =>
        let phase := if c.fresh ttlMs now then .refused c.answer else .expired now
        some { s with phase := Function.update s.phase r phase }
    | _ => none
  | .delete r =>
    match s.phase r with
    | .expired now =>
      some { s with
        table := deleteIdempotency s.table (key r)
        owner := Function.update s.owner (key r) none
        phase := Function.update s.phase r (.clear now) }
    | _ => none
  | .insert r =>
    match s.phase r with
    | .clear now =>
      match insertInProgress s.table (key r) now with
      | some T => some { s with
          table := T
          owner := Function.update s.owner (key r) (some r)
          phase := Function.update s.phase r (.started now) }
      | none => some { s with phase := Function.update s.phase r (.refused .inProgress) }
    | _ => none
  | .finish r httpStatus body =>
    match s.phase r with
    | .started now => some { s with
        table := updateDone s.table (key r) httpStatus body
        phase := Function.update s.phase r (.finished now) }
    | _ => none
  | .release r =>
    match s.phase r with
    | .started _ => some { s with
        table := deleteIdempotency s.table (key r)
        owner := Function.update s.owner (key r) none
        phase := Function.update s.phase r .released }
    | _ => none

/-- No request has arrived yet; `T` is what earlier processes left in the table. -/
def State.init (T : Table κ β) (clock : Int) : State κ β ρ where
  table := T
  owner := fun _ => none
  clock := clock
  phase := fun _ => .idle

end Lnpl.Drivers.Idempotency
