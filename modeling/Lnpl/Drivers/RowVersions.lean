import Lnpl.Drivers.SqliteRepositoryDriver
import Lnpl.Lib.Runs

/-!
# The repository steps of a run

What a run issues on its `SqliteRepositoryDriver` for its read, update, delete, create and set
steps (`_run_effect` in `interp.py`).  A read binds the row object it was handed under its entity,
and a set assigns to the row object that is bound and persists it; the compiler lets only an
entity's own binding be set.
-/

namespace Lnpl.Drivers.RowVersions

open Lnpl.Lib
open Lnpl.Drivers.Repository (SqliteDriver VersionedRow Call Answer Dict Value)
open Lnpl.Drivers.Sqlite

/-- A step, with the key that it resolved.  A create seeds the row: `seeded` is what the payload and
the fills make of it, `declaresId` says whether the entity declares `id`. -/
inductive Step where
  | read (entity key : String)
  | update (entity key : String)
  | delete (entity key : String)
  | create (entity key : String) (seeded : Dict) (declaresId : Bool)
  | set (entity : String) (fields : List (String × Value))

/-- A run: its driver, and for each entity the row object that is bound, by its position among those
that the driver handed out. -/
structure Run where
  driver : SqliteDriver
  bindings : String → Option Nat

/-- `if declares_id or len(seeded) > 1`. -/
def persistsSeeded (seeded : Dict) (declaresId : Bool) : Bool := declaresId || 1 < seeded.size

/-- The `_version` of the row that a create leaves. -/
def createdVersion (seeded : Dict) (declaresId : Bool) : Nat :=
  if persistsSeeded seeded declaresId then 1 else 0

namespace Run

/-- A call of the driver. -/
def call (r : Run) (c : Call) : Run × Answer :=
  ({ r with driver := (r.driver.call c).1 }, (r.driver.call c).2)

/-- A step, and what the driver answered. -/
def step (r : Run) : Step → Run × Answer
  | .read e k =>
    match r.driver.call (.read e k) with
    | (S, .row (some row)) =>
      ({ driver := S, bindings := Function.update r.bindings e (some r.driver.held.length) },
        .row (some row))
    | (S, answer) => ({ r with driver := S }, answer)
  | .update e k => r.call (.update e k)
  | .delete e k => r.call (.delete e k)
  | .create e k seeded declaresId =>
    match r.call (.create e k seeded) with
    | (r', .affected n) =>
      if persistsSeeded seeded declaresId then r'.call (.persist r.driver.held.length [])
      else (r', .affected n)
    | (r', answer) => (r', answer)
  | .set e fields =>
    match r.bindings e with
    | some i => r.call (.persist i fields)
    | none => (r, .notHeld)

/-- The run after a step. -/
def next (r : Run) (s : Step) : Run := (r.step s).1

/-- The row that is stored under a key, as a statement of the run sees it. -/
def stored (r : Run) (e k : String) : Option (Row Dict Unit) := selectRow r.driver.visible e k

/-- The row object that the run has bound for a key. -/
def Bound (r : Run) (e k : String) (b : VersionedRow) : Prop :=
  ∃ i, r.bindings e = some i ∧ r.driver.held[i]? = some b ∧ b.key = k

end Run

/-- A run begins on a driver that earlier calls were made on. -/
def start (T : Tables String String (Dict × Nat)) (earlier : List Call) : Run where
  driver := ((runCalls SqliteDriver.call (SqliteDriver.init T) earlier).1.call .begin).1
  bindings := fun _ => none

/-- The key under which a step writes. -/
def Writes (r : Run) (e k : String) : Step → Prop
  | .read .. => False
  | .update e' k' | .delete e' k' | .create e' k' .. => e' = e ∧ k' = k
  | .set e' _ => e' = e ∧ ∃ b, r.Bound e k b

/-- The step wrote. -/
def Wrote : Answer → Prop
  | .done => True
  | .affected n => 0 < n
  | _ => False

end Lnpl.Drivers.RowVersions
