import Lnpl.Drivers.Outbox
import Lnpl.Lib.Runs
import Lnpl.Lib.Transactions

/-!
# Event streams

Runs that emit, each on its own connection to one store, acknowledgements of the relay, and a
subscriber of one event.  The subscriber asks for what lies after the last id it received; its
connection may break at any point, and it may come back any number of times.

A run here is what its connection executes: the emissions, and any other statements, of which the
outbox sees nothing but the lock.
-/

namespace Lnpl.Serve.Subscribe

open Lnpl.Drivers.Emissions Lnpl.Front Lnpl.Lib

variable {ρ P : Type} [DecidableEq ρ]

/-! ### The route -/

/-- Why a subscription is not opened. -/
inductive Rejection where
  /-- 400 `cursor-invalid` -/
  | cursorInvalid (detail : String)
  | raised (e : Fault)
  deriving DecidableEq, Repr

/-- `_last_event_id`. -/
def lastEventId (py : Python) (header : Option String) : Except Rejection Nat :=
  match header with
  | none => .ok 0
  | some header =>
    if !py.isdigit header then
      .error (.cursorInvalid "Last-Event-ID must be a non-negative integer outbox seq")
    else
      match py.int header.toList with
      | .error e => .error (.raised e)
      | .ok seq => .ok seq

/-- The frames that a poll of `_sse_frames` yields: `id` is the sequence number, `data` the
payload. -/
def poll (O : Outbox ρ P) (event : String) (afterSeq : Nat) : List (Frame ρ P) :=
  (selectOutboxSince O event afterSeq).map Row.toFrame

/-- `_sse_frames` of an open connection: its cursor, and what the last poll read and it has not
yielded yet. -/
structure Session (ρ P : Type) where
  afterSeq : Nat
  pending : List (Frame ρ P)

/-! ### The system -/

inductive Phase where
  | idle
  | running
  | committed
  | rolledBack
  deriving DecidableEq, Repr

/-- A run, and the emissions that it was told are recorded. -/
structure Run (P : Type) where
  phase : Phase := .idle
  emitted : List (Drivers.Emissions.Emission P) := []

/-- The store, the runs and the subscriber.  `lastId` is the last id that the subscriber has
received, or the one it begins with. -/
structure State (ρ P : Type) where
  store : Store ρ (Outbox ρ P)
  run : ρ → Run P := fun _ => {}
  lastId : Option Nat
  session : Option (Session ρ P) := none
  received : List (Frame ρ P) := []

inductive Action (ρ P : Type) where
  | begin (c : ρ)
  /-- any other statement that reads -/
  | read (c : ρ)
  /-- any other statement that writes -/
  | write (c : ρ)
  /-- `record_emission` -/
  | emit (c : ρ) (emission : Drivers.Emissions.Emission P) (now : Int)
  | commit (c : ρ)
  | rollback (c : ρ)
  /-- `ack_outbox`, on a connection of its own -/
  | ack (seqs : List Nat) (now : Int)
  | connect
  | poll
  /-- the next frame of the poll is yielded and arrives -/
  | receive
  /-- the connection breaks, or is idle for too long -/
  | disconnect

def State.setRun (s : State ρ P) (c : ρ) (run : Run P) : State ρ P :=
  { s with run := Function.update s.run c run }

/-- The `Last-Event-ID` of the subscriber. -/
def State.header (s : State ρ P) : Option String :=
  s.lastId.map toString

/-- `record_emission` of the run. -/
def State.emit (s : State ρ P) (c : ρ) (emission : Drivers.Emissions.Emission P) (now : Int) :
    State ρ P :=
  match s.store.writable c with
  | none => { s with store := s.store.refuse c }
  | some O =>
    match insertOutbox O c emission now with
    | none => { s with store := s.store.write c O }
    | some O' =>
      { s.setRun c { s.run c with emitted := (s.run c).emitted ++ [emission] } with
        store := s.store.write c O' }

/-- `ack_outbox`. -/
def State.ack (s : State ρ P) (seqs : List Nat) (now : Int) : State ρ P :=
  if s.store.writer = none then
    match ackOutbox s.store.committed seqs now with
    | none => s
    | some O => { s with store := s.store.publish O }
  else s

/-- One step, where it can happen. -/
def step (py : Python) (event : String) (s : State ρ P) : Action ρ P → Option (State ρ P)
  | .begin c =>
    match (s.run c).phase with
    | .idle => some (s.setRun c { s.run c with phase := .running })
    | _ => none
  | .read c =>
    match (s.run c).phase with
    | .running => some { s with store := s.store.read c }
    | _ => none
  | .write c =>
    match (s.run c).phase, s.store.writable c with
    | .running, none => some { s with store := s.store.refuse c }
    | .running, some O => some { s with store := s.store.write c O }
    | _, _ => none
  | .emit c emission now =>
    match (s.run c).phase with
    | .running => some (s.emit c emission now)
    | _ => none
  | .commit c =>
    match (s.run c).phase with
    | .running =>
      some { s.setRun c { s.run c with phase := .committed } with store := s.store.commit c }
    | _ => none
  | .rollback c =>
    match (s.run c).phase with
    | .running =>
      some { s.setRun c { s.run c with phase := .rolledBack } with store := s.store.rollback c }
    | _ => none
  | .ack seqs now => some (s.ack seqs now)
  | .connect =>
    match s.session, lastEventId py s.header with
    | none, .ok seq => some { s with session := some ⟨seq, []⟩ }
    | _, _ => none
  | .poll =>
    match s.session with
    | some ⟨afterSeq, []⟩ =>
      some { s with session := some ⟨afterSeq, Subscribe.poll s.store.committed event afterSeq⟩ }
    | _ => none
  | .receive =>
    match s.session with
    | some ⟨_, f :: pending⟩ =>
      some
        { s with
          lastId := some f.seq
          session := some ⟨f.seq, pending⟩
          received := s.received ++ [f] }
    | _ => none
  | .disconnect => some { s with session := none }

/-- Nothing has happened yet; the subscriber begins with the `Last-Event-ID` `start`. -/
def State.init (O : Outbox ρ P) (start : Option Nat) : State ρ P where
  store := { committed := O.anonymous }
  lastId := start

/-! ### The law -/

/-- The emissions of the event that are committed, above a sequence number. -/
def State.committedSince (s : State ρ P) (event : String) (seq : Nat) : List (Frame ρ P) :=
  since s.store.committed.frames event seq

/-- What holds in one state, of a subscriber that began with the cursor `start`. -/
structure Resumed (event : String) (start : Nat) (s : State ρ P) : Prop where
  /-- What is committed above the start was received, each emission once and in this order, but for
  what lies above the last id. -/
  received : s.committedSince event start =
    s.received ++ s.committedSince event (s.lastId.getD 0)
  /-- What a poll reads and does not yield yet comes next. -/
  pending : ∀ x ∈ s.session,
    x.pending <+: s.committedSince event (s.lastId.getD 0)
  /-- A poll reads all that is missing. -/
  poll : ∀ x ∈ s.session,
    Subscribe.poll s.store.committed event x.afterSeq = s.committedSince event (s.lastId.getD 0)
  /-- The subscriber can come back with the last id it received. -/
  resume : s.received ≠ [] → ∀ py, lastEventId py s.header = .ok (s.lastId.getD 0)
  increasing : s.received.Pairwise fun f g => f.seq < g.seq
  /-- The emissions of a run are committed, in the order it made them, if the run is, and are not
  otherwise. -/
  authors : ∀ c, recordedBy s.store.committed.frames c =
    if (s.run c).phase = .committed then (s.run c).emitted else []
  /-- No emission of a run that was not committed is received. -/
  committedOnly : ∀ f ∈ s.received, ∀ c, f.author = some c → (s.run c).phase = .committed

/-- The law, for every store to begin with, subscribed event and first cursor. -/
def ResumeLaw (ρ P : Type) [DecidableEq ρ] : Prop :=
  ∀ (py : Python) (O : Outbox ρ P) (event : String) (start : Option Nat) (s : State ρ P),
    Reaches (step py event) anyAction (State.init O start) s →
    Resumed event (start.getD 0) s

end Lnpl.Serve.Subscribe
