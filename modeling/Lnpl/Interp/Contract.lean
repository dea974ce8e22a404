import Lnpl.Interp.Interpreter
import Lnpl.Lib.Tables

/-!
# What the drivers promise

The contracts that the runs of a workflow rest on, for drivers of which only the SPI is known.  A
repository driver holds the committed rows and those its open transaction sees (`RepoView`), and
its calls do to them what the SPI says (`Repo.Transactional`): a call that raises leaves them as
they were.  A cache answers a key only with what was put under it since it was last invalidated
(`Cache.Honest`).

`Repo.tables` and `Cache.table` keep the contracts (`Repo.tables_transactional`,
`Cache.table_honest`).
-/

namespace Lnpl.Interp

open Lnpl.Lib

/-! ### Repository drivers -/

/-- The rows a driver holds, by entity and key. -/
abbrev Contents := String → String → Option Dict

/-- What a repository driver holds: the committed rows, and the rows its statements see. -/
structure RepoView (ρ : Type) where
  committed : ρ → Contents
  visible : ρ → Contents

namespace RepoView

variable {ρ : Type} (V : RepoView ρ)

/-- The visible row, without its stamp. -/
def row (d : ρ) (e k : String) : Option Dict :=
  (V.visible d e k).map fun row => row.erase schemaGenKey

/-- The committed row, without its stamp. -/
def committedRow (d : ρ) (e k : String) : Option Dict :=
  (V.committed d e k).map fun row => row.erase schemaGenKey

/-- No row has changed. -/
structure Same (d d' : ρ) : Prop where
  committed : V.committed d' = V.committed d
  visible : V.visible d' = V.visible d

/-- No row has changed but the one that statements see under the entity and key. -/
structure Elsewhere (e k : String) (d d' : ρ) : Prop where
  committed : V.committed d' = V.committed d
  visible : ∀ e' k', (e', k') ≠ (e, k) → V.visible d' e' k' = V.visible d e' k'

variable {V}

end RepoView

/-- The contract of a repository driver with transactions, whose reads return detached rows. -/
structure Repo.Transactional {ρ : Type} (repo : Repo ρ) (V : RepoView ρ) : Prop where
  begin : ∀ d, Ends (fun _ => V.Same d) (fun _ => V.Same d) (repo.begin d)
  commit : ∀ d, Ends (fun _ d' => V.committed d' = V.visible d ∧ V.visible d' = V.visible d)
    (fun _ _ => True) (repo.commit d)
  rollback : ∀ d, Ends (fun _ d' => V.committed d' = V.committed d ∧ V.visible d' = V.committed d)
    (fun _ _ => True) (repo.rollback d)
  read : ∀ e k d, Ends (fun found d' => V.Same d d' ∧
      ∀ row, found = .dict row → V.visible d e k = some row.data)
    (fun _ => V.Same d) (repo.execute e .read k d)
  /-- a `create` whose key has a row raises -/
  create : ∀ e k d, Ends (fun _ d' => V.Elsewhere e k d d' ∧ V.visible d e k = none ∧
      V.visible d' e k ≠ none)
    (fun _ => V.Same d) (repo.execute e .create k d)
  /-- an `update` writes back the row it finds -/
  update : ∀ e k d, Ends (fun _ => V.Same d) (fun _ => V.Same d) (repo.execute e .update k d)
  delete : ∀ e k d, Ends (fun _ d' => V.Elsewhere e k d d' ∧ V.visible d' e k = none)
    (fun _ => V.Same d) (repo.execute e .delete k d)
  /-- a `persist` without a row to replace may insert it or do nothing -/
  persist : ∀ e k row d, Ends (fun row' d' => V.Elsewhere e k d d' ∧ row'.data = row.data ∧
      (V.visible d e k ≠ none → V.visible d' e k = some row.data))
    (fun _ => V.Same d) (repo.persist e k row d)
  query : ∀ e d, Ends (fun _ => V.Same d) (fun _ => V.Same d) (repo.query e d)
  queryPredicate : ∀ query, repo.queryPredicate = some query → ∀ e predicate order limit d,
    Ends (fun _ => V.Same d) (fun _ => V.Same d) (query e predicate order limit d)
  recordEmission : ∀ emission d,
    Ends (fun _ => V.Same d) (fun _ => V.Same d) (repo.recordEmission emission d)

/-! ### Cache drivers -/

/-- The contract of a cache, where `holds c k row` says that it may answer `k` with `row`.  Its
faults are `DriverError`s, and a `set` that raises has stored nothing. -/
structure Cache.Honest {χ : Type} (cache : Cache χ) (holds : χ → String → Stored → Prop) : Prop where
  get : ∀ now key c, Ends (fun found c' => (∀ row, found = some row → holds c key row) ∧
      ∀ k row, holds c' k row → holds c k row)
    (fun _ c' => ∀ k row, holds c' k row → holds c k row) (cache.get now key c)
  set : ∀ now key row ttl c, Ends (fun _ c' => ∀ k r, holds c' k r → holds c k r ∨ k = key ∧ r = row)
    (fun _ c' => ∀ k r, holds c' k r → holds c k r) (cache.set now key row ttl c)
  invalidate : ∀ key c, Ends (fun _ c' => ∀ k row, holds c' k row → holds c k row ∧ k ≠ key)
    (fun e c' => (∃ cls message, e = .driver cls message) ∧ ∀ k row, holds c' k row → holds c k row)
    (cache.invalidate key c)

/-! ### Drivers over tables -/

/-- A driver over tables: the rows as they were committed, and as they are. -/
structure TableStore where
  committed : Tables String String Dict := .empty
  current : Tables String String Dict := .empty

/-- The rows of the tables. -/
def TableStore.view : RepoView TableStore where
  committed d := d.committed.get
  visible d := d.current.get

/-- `{"affected": n}`. -/
def affected (n : Nat) : Found := .dict { data := (∅ : Dict).insert "affected" (.int n) }

/-- `execute` on tables. -/
def TableStore.execute (entity : String) (op : Operation) (key : String) :
    EStateM Exc TableStore Found := fun d =>
  match op, d.current.get entity key with
  | .read, none => .ok .none d
  | .read, some row => .ok (.dict { data := row }) d
  | .create, some _ => .error (.driver .conflictError "the row exists") d
  | .create, none =>
    .ok (affected 1) { d with current := d.current.set entity key ((∅ : Dict).insert "id" (.str key)) }
  | .update, none | .delete, none => .ok (affected 0) d
  | .update, some _ => .ok (affected 1) d
  | .delete, some _ => .ok (affected 1) { d with current := d.current.erase entity key }

/-- `persist` on tables: a row that is not there is not written. -/
def TableStore.persist (entity key : String) (row : Stored) : EStateM Exc TableStore Stored := fun d =>
  match d.current.get entity key with
  | none => .ok row d
  | some _ => .ok row { d with current := d.current.set entity key row.data }

/-- The driver over tables. -/
def Repo.tables : Repo TableStore where
  begin := pure ()
  commit := modify fun d => { d with committed := d.current }
  rollback := modify fun d => { d with current := d.committed }
  execute := TableStore.execute
  query entity := do return ((← get).current.itemsOf entity).map Prod.snd
  persist := TableStore.persist
  recordEmission _ := pure ()

theorem TableStore.elsewhere_set (d : TableStore) (e k : String) (row : Dict) :
    TableStore.view.Elsewhere e k d { d with current := d.current.set e k row } := by
  refine ⟨rfl, fun e' k' hne => ?_⟩
  show (d.current.set e k row).get e' k' = d.current.get e' k'
  rw [Tables.get_set, if_neg fun h => hne (Prod.ext h.1 h.2)]

theorem TableStore.elsewhere_erase (d : TableStore) (e k : String) :
    TableStore.view.Elsewhere e k d { d with current := d.current.erase e k } := by
  refine ⟨rfl, fun e' k' hne => ?_⟩
  show (d.current.erase e k).get e' k' = d.current.get e' k'
  rw [Tables.get_erase, if_neg fun h => hne (Prod.ext h.1 h.2)]

/-- The driver over tables keeps the contract. -/
theorem Repo.tables_transactional : Repo.tables.Transactional TableStore.view where
  begin _ := ⟨rfl, rfl⟩
  commit _ := ⟨rfl, rfl⟩
  rollback _ := ⟨rfl, rfl⟩
  read e k d := by
    show Ends _ _ (TableStore.execute e .read k d)
    unfold TableStore.execute
    cases h : d.current.get e k with
    | none => exact ⟨⟨rfl, rfl⟩, nofun⟩
    | some row =>
      refine ⟨⟨rfl, rfl⟩, fun row' heq => ?_⟩
      rw [← (Found.dict.inj heq)]
      exact h
  create e k d := by
    show Ends _ _ (TableStore.execute e .create k d)
    unfold TableStore.execute
    cases h : d.current.get e k with
    | none =>
      refine ⟨TableStore.elsewhere_set d e k _, h, ?_⟩
      show (d.current.set e k _).get e k ≠ none
      rw [Tables.get_set_self]
      exact nofun
    | some row => exact ⟨rfl, rfl⟩
  update e k d := by
    show Ends _ _ (TableStore.execute e .update k d)
    unfold TableStore.execute
    cases d.current.get e k with
    | none => exact ⟨rfl, rfl⟩
    | some row => exact ⟨rfl, rfl⟩
  delete e k d := by
    show Ends _ _ (TableStore.execute e .delete k d)
    unfold TableStore.execute
    cases h : d.current.get e k with
    | none => exact ⟨⟨rfl, fun _ _ _ => rfl⟩, h⟩
    | some row =>
      refine ⟨TableStore.elsewhere_erase d e k, ?_⟩
      exact Tables.get_erase_self d.current e k
  persist e k row d := by
    show Ends _ _ (TableStore.persist e k row d)
    unfold TableStore.persist
    cases h : d.current.get e k with
    | none => exact ⟨⟨rfl, fun _ _ _ => rfl⟩, rfl, fun hne => absurd h hne⟩
    | some old =>
      refine ⟨TableStore.elsewhere_set d e k _, rfl, fun _ => ?_⟩
      exact Tables.get_set_self d.current e k row.data
  query _ _ := ⟨rfl, rfl⟩
  queryPredicate := nofun
  recordEmission _ _ := ⟨rfl, rfl⟩

/-- A cache over one table, whose entries do not expire; `down` keys cannot be invalidated. -/
def Cache.table (down : List String) : Cache (Std.ExtTreeMap String Stored) where
  get _ key m := .ok m[key]? m
  set _ key row _ m := .ok () (m.insert key row)
  invalidate key m :=
    if key ∈ down then .error (.driver .driverError "the cache is down") m
    else .ok () (m.erase key)

/-- The entries of the table. -/
def Cache.entries (m : Std.ExtTreeMap String Stored) (key : String) (row : Stored) : Prop :=
  m[key]? = some row

/-- The cache over a table keeps the contract. -/
theorem Cache.table_honest (down : List String) : (Cache.table down).Honest Cache.entries where
  get _ key m := ⟨fun _ h => h, fun _ _ => id⟩
  set now key row ttl m := by
    intro k r h
    have h : (m.insert key row)[k]? = some r := h
    rw [Std.ExtTreeMap.getElem?_insert] at h
    split at h
    · next heq =>
      rw [Std.compare_eq_iff_eq] at heq
      exact Or.inr ⟨heq.symm, (Option.some.inj h).symm⟩
    · exact Or.inl h
  invalidate key m := by
    show Ends _ _ (if key ∈ down then .error (Exc.driver .driverError "the cache is down") m
      else .ok () (m.erase key))
    split
    · exact ⟨⟨_, _, rfl⟩, fun _ _ => id⟩
    · intro k row h
      have h : (m.erase key)[k]? = some row := h
      rw [Std.ExtTreeMap.getElem?_erase] at h
      split at h
      · exact nomatch h
      · next hne => exact ⟨h, fun heq => hne (by rw [heq, Std.compare_self])⟩

end Lnpl.Interp

/-!
## Runs one after another

The runs that share the drivers of one interpreter: each request names a workflow and brings its
payload and its caller, and finds the drivers as the run before left them, however that run ended.
-/

namespace Lnpl.Interp

open Lnpl.Lib

variable {ρ χ ν : Type}

/-- A request to run a workflow: what is given to `run_workflow`, and what the run decides by
itself. -/
structure Request where
  workflow : String
  payload : Dict
  caller : Option Dict := none
  fill : FillSource → String
  schedules : Nat → List Move := fun _ => []

/-- The session that the run of a request leaves. -/
def Request.session (rt : Runtime ρ χ ν) (request : Request) (s : Exec ρ χ ν) : Session ρ χ ν :=
  EStateM.lastState (runWorkflow { rt with caller := request.caller } request.workflow
    request.payload request.fill request.schedules s)

/-- The state before the run number `n`. -/
def before (rt : Runtime ρ χ ν) (requests : Nat → Request) (s₀ : Exec ρ χ ν) : Nat → Exec ρ χ ν
  | 0 => s₀
  | n + 1 => ((requests n).session rt (before rt requests s₀ n)).run.exec

/-- The session that the run number `n` leaves. -/
def sessionOf (rt : Runtime ρ χ ν) (requests : Nat → Request) (s₀ : Exec ρ χ ν) (n : Nat) :
    Session ρ χ ν :=
  (requests n).session rt (before rt requests s₀ n)

/-- The session has left no transaction open: none was begun, or a commit or rollback returned. -/
def Session.closed (s : Session ρ χ ν) : Bool :=
  s.boundary.all (fun c => c.op ≠ .begin || !c.returned) ||
    s.boundary.any fun c => c.op ≠ .begin && c.returned

/-- The row under the entity and key was committed before one of the runs up to number `n`. -/
def CommittedBy (rt : Runtime ρ χ ν) (V : RepoView ρ) (requests : Nat → Request) (s₀ : Exec ρ χ ν)
    (n : Nat) (e k : String) (row : Dict) : Prop :=
  ∃ j ≤ n, V.committedRow (before rt requests s₀ j).repo e k = some row

end Lnpl.Interp
