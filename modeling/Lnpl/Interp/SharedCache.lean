import Mathlib.Logic.Function.Basic
import Lnpl.Lib.Runs
import Lnpl.Interp.Interpreter

/-!
# One key of the cache, shared by several runs

A `cached` read that misses is three driver calls: `cache.get`, `repo.execute` and `cache.set`; a run
that has written the row makes two at its end: `repo.commit` and `cache.invalidate`.  Other runs
execute theirs in between.  `step` lets any number of runs make these calls about one key in any
order; an entry of the cache may also be gone at any time, by its TTL or by a rollback.

`readCalls` and `commitCalls` are the calls of a run that no other run interrupts, and `RowSlot.repo`
and `slotCache` the drivers of the one key on which the interpreter makes them.
-/

namespace Lnpl.Interp.SharedCache

/-! ### The shared state -/

/-- An entry of the cache.  `version` is bookkeeping of the model: the number of commits of the row
when it was read. -/
structure Entry where
  row : Stored
  version : Nat

/-- What a `cached` read has returned: the entry, and the last commit whose invalidation had
returned when the read began. -/
structure Answer extends Entry where
  floor : Nat

/-- The answer is not from before that commit. -/
def Answer.fresh (a : Answer) : Prop := a.floor ≤ a.version

/-- Where a run stands. -/
inductive Phase where
  | idle
  /-- `cache.get` answered nothing: `repo.execute` is next -/
  | missed (floor : Nat)
  /-- `repo.execute` answered the row: `cache.set` is next -/
  | fetched (entry : Entry) (floor : Nat)
  /-- `repo.commit` returned: `cache.invalidate` is next -/
  | committed (version : Nat)

/-- The row under the key, its entry in the cache, and the runs.  The rest is bookkeeping of the
model: the number of commits of the row, the last of them whose invalidation has returned, and what
`cached` reads have returned. -/
structure State (ι : Type) where
  row : Option Stored
  cached : Option Entry
  phase : ι → Phase
  version : Nat := 0
  floor : Nat := 0
  answers : List Answer := []

/-- One driver call of a run, or the loss of the entry. -/
inductive Action (ι : Type) where
  | get (i : ι)
  | read (i : ι)
  | set (i : ι)
  /-- the commit of a run that has written the row, or deleted it -/
  | commit (i : ι) (row : Option Stored)
  | invalidate (i : ι)
  | expire

variable {ι : Type} [DecidableEq ι]

/-! ### The driver calls -/

/-- What a `cached` read that begins now is answered, if it hits. -/
def State.hit (s : State ι) : Option Answer := s.cached.map fun entry => ⟨entry, s.floor⟩

/-- `cache.get`. -/
def State.get (i : ι) (s : State ι) : State ι :=
  match s.hit with
  | some answer => { s with answers := s.answers ++ [answer] }
  | none => { s with phase := Function.update s.phase i (.missed s.floor) }

/-- `repo.execute`; a read that finds no row fails. -/
def State.read (i : ι) (floor : Nat) (s : State ι) : State ι :=
  match s.row with
  | some row =>
    { s with phase := Function.update s.phase i (.fetched ⟨row.strip, s.version⟩ floor) }
  | none => { s with phase := Function.update s.phase i .idle }

/-- `cache.set`; the row is returned. -/
def State.set (i : ι) (entry : Entry) (floor : Nat) (s : State ι) : State ι :=
  { s with
    cached := some entry
    phase := Function.update s.phase i .idle
    answers := s.answers ++ [⟨entry, floor⟩] }

/-- `repo.commit` of a run that has written the row. -/
def State.commit (i : ι) (row : Option Stored) (s : State ι) : State ι :=
  { s with
    row := row
    phase := Function.update s.phase i (.committed (s.version + 1))
    version := s.version + 1 }

/-- `cache.invalidate`. -/
def State.invalidate (i : ι) (version : Nat) (s : State ι) : State ι :=
  { s with
    cached := none
    phase := Function.update s.phase i .idle
    floor := max s.floor version }

/-- One atomic step, where the run is there. -/
def step (s : State ι) : Action ι → Option (State ι)
  | .get i =>
    match s.phase i with
    | .idle => some (s.get i)
    | _ => none
  | .read i =>
    match s.phase i with
    | .missed floor => some (s.read i floor)
    | _ => none
  | .set i =>
    match s.phase i with
    | .fetched entry floor => some (s.set i entry floor)
    | _ => none
  | .commit i row =>
    match s.phase i with
    | .idle => some (s.commit i row)
    | _ => none
  | .invalidate i =>
    match s.phase i with
    | .committed version => some (s.invalidate i version)
    | _ => none
  | .expire => some { s with cached := none }

/-- Nothing is cached yet, no run is under way. -/
def State.init (row : Option Stored) : State ι where
  row := row
  cached := none
  phase _ := .idle

/-! ### Runs that are not interrupted -/

/-- The calls of a `cached` read. -/
def readCalls (s : State ι) (i : ι) : List (Action ι) :=
  match s.cached, s.row with
  | some _, _ => [.get i]
  | none, some _ => [.get i, .read i, .set i]
  | none, none => [.get i, .read i]

/-- The calls at the end of a run that leaves the row as `row`. -/
def commitCalls (i : ι) (row : Option Stored) : List (Action ι) := [.commit i row, .invalidate i]

/-- What the driver of the one row holds: the row as it was committed, and as it is. -/
structure RowSlot where
  committed : Option Stored
  current : Option Stored

/-- The driver of the one row. -/
def RowSlot.repo : Repo RowSlot where
  begin := pure ()
  commit := modify fun d => { d with committed := d.current }
  rollback := modify fun d => { d with current := d.committed }
  execute _ _ _ := fun d =>
    match d.current with
    | some row => .ok (.dict row) d
    | none => .ok .none d
  query _ := pure []
  persist _ _ row := do
    modify fun d => { d with current := some row }
    return row
  recordEmission _ := pure ()

/-- The cache of the one key. -/
def slotCache : Cache (Option Stored) where
  get _ _ := fun c => .ok c c
  set _ _ row _ := modify fun _ => some row
  invalidate _ := modify fun _ => none

end Lnpl.Interp.SharedCache
