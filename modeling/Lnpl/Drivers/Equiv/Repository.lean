import Mathlib.Data.List.Pairwise
import Mathlib.Data.String.Basic
import Lnpl.Lib.Runs
import Lnpl.Drivers.SqliteRepositoryDriver

/-!
# The two reference drivers side by side

`FakeRepository` hands out its stored dicts and upserts on `persist`; the sqlite driver hands out
detached rows and compares versions.  They part where a row object is out of date: its row was
deleted or rolled back, or was written through another row object (`persist_after_delete`).  A
`Ledger` records which row objects are up to date.  `agree_of_permitted` proves that on every list
of calls that persists only through such row objects, and sorts only comparable values, both give
the same answers and end with the same tables; `Sim` is the simulation.
-/

namespace Lnpl.Drivers.Repository

open Lnpl.Lib Lnpl.Drivers.Sqlite

/-! ### Sorting -/

theorem compare_string (s t : String) :
    compare s t = if s < t then .lt else if t < s then .gt else .eq := by
  change compareOfLessAndEq s t = _
  unfold compareOfLessAndEq
  split_ifs with h1 h2 h3 h3
  · rfl
  · exact absurd (h2 ▸ h3) (lt_irrefl _)
  · rfl
  · rfl
  · exact absurd (le_antisymm (not_lt.1 h3) (not_lt.1 h1)) h2

theorem compare_int (m n : Int) :
    compare m n = if m < n then .lt else if n < m then .gt else .eq := by
  change compareOfLessAndEq m n = _
  unfold compareOfLessAndEq
  split_ifs <;> first | rfl | omega

variable {field : String} {p q : String × Dict} {i : Nat}

/-- Where Python can compare two field values, it orders the rows as sqlite does. -/
theorem keyLe_eq (h : (Fake.lt? (p.2.value field) (q.2.value field)).isSome) :
    Fake.keyLe field p q = (SqliteDriver.sortedCmp field p q).isLE := by
  have hkey : decide (p.1 ≤ q.1) = (compare p.1 q.1).isLE := by
    rw [compare_string]
    split_ifs with h1 h2
    · simpa using le_of_lt h1
    · simpa using h2
    · simpa using not_lt.1 h2
  unfold Fake.keyLe SqliteDriver.sortedCmp
  simp only [compareLex, compareOn, Value.sql]
  cases hp : p.2.value field <;> cases hq : q.2.value field <;>
    simp only [hp, hq, Fake.lt?, Option.isSome_none, Bool.false_eq_true] at h ⊢ <;>
    simp only [reduceCtorEq, decide_false, Bool.toNat_false, SqlValue.storageClass,
      SqlValue.number, SqlValue.string, Std.ReflOrd.compare_self, Ordering.eq_then]
  case text.text a b =>
    rw [compare_string a b, hkey]
    by_cases h1 : a < b <;> by_cases h2 : b < a <;> simp [h1, h2]
  all_goals
    rw [compare_int, hkey]
    split_ifs with h1 h2
    · simp [h1]
    · simp [h1, h2]
    · simp [h1, h2]

theorem sql_eq_null {v : Value} : v.sql = .null ↔ v = .null := by
  cases v <;> simp [Value.sql]

/-- A row without the field comes after a row with it. -/
theorem sortedCmp_missing (hp : p.2.value field ≠ .null) (hq : q.2.value field = .null) :
    (SqliteDriver.sortedCmp field p q).isLE := by
  have hzero : compare 0 1 = Ordering.lt := by decide
  simp [SqliteDriver.sortedCmp, compareLex, compareOn, sql_eq_null, hp, hq, hzero]

/-- Among rows without the field the key decides. -/
theorem sortedCmp_both_missing (hp : p.2.value field = .null) (hq : q.2.value field = .null) :
    SqliteDriver.sortedCmp field p q = compare p.1 q.1 := by
  simp [SqliteDriver.sortedCmp, compareLex, compareOn, hp, hq]

instance (field : String) : Std.TransCmp (SqliteDriver.sortedCmp field) := by
  unfold SqliteDriver.sortedCmp
  infer_instance

theorem fst_eq_of_sortedCmp (field : String) (h : SqliteDriver.sortedCmp field p q = .eq) :
    p.1 = q.1 := by
  simp only [SqliteDriver.sortedCmp, compareLex, Ordering.then_eq_eq, compareOn] at h
  exact Std.compare_eq_iff_eq.1 h.2.2.2.2

/-- **Sorting.** On rows in key order whose values Python can compare, the two drivers sort
alike. -/
theorem querySorted_agree {items : List (String × Dict)}
    (hitems : items.Pairwise fun p q => compare p.1 q.1 = .lt)
    (hcomp : Fake.incomparable field (items.filter fun p => p.2.value field ≠ .null) = false) :
    Fake.querySorted items field = SqliteDriver.querySorted items field := by
  unfold Fake.querySorted SqliteDriver.querySorted
  set present := items.filter fun p => p.2.value field ≠ .null with hpresent
  set missing := items.filter fun p => p.2.value field = .null with hmissing
  rw [if_neg (by simp [hcomp])]
  have hle : present.mergeSort (Fake.keyLe field) =
      present.mergeSort fun p q => (SqliteDriver.sortedCmp field p q).isLE := by
    have hagree : ∀ p ∈ present, ∀ q ∈ present,
        Fake.keyLe field p q = (SqliteDriver.sortedCmp field p q).isLE := by
      intro p hp q hq
      refine keyLe_eq ?_
      unfold Fake.incomparable at hcomp
      have hpq := List.any_eq_false.1 hcomp p hp
      rw [Bool.not_eq_true] at hpq
      simpa [Option.isSome_iff_ne_none] using List.any_eq_false.1 hpq q hq
    simpa using List.map_mergeSort (f := id) hagree
  rw [hle]
  congr 2
  have hcmp : ∀ p q, SqliteDriver.sortedCmp field q p = (SqliteDriver.sortedCmp field p q).swap :=
    fun p q => Std.OrientedCmp.eq_swap
  have hkeys : ∀ p ∈ items, ∀ q ∈ items, p.1 = q.1 → p = q := by
    intro p hp q hq hpq
    by_contra hne
    have hdistinct : items.Pairwise fun p q => p.1 ≠ q.1 :=
      hitems.imp fun hlt heq => by simp [heq] at hlt
    have : Std.Symm fun p q : String × Dict => p.1 ≠ q.1 := ⟨fun _ _ h => h.symm⟩
    exact hdistinct.forall hp hq hne hpq
  refine @List.Perm.eq_of_pairwise _ (fun p q => (SqliteDriver.sortedCmp field p q).isLE)
    _ _ ?_ ?_ ?_ ?_
  · -- rows that compare equal have one key, so they are one row
    intro p q hp hq hpq hqp
    have hp : p ∈ items := by
      obtain hp | hp := List.mem_append.1 hp
      · exact List.mem_of_mem_filter (List.mem_mergeSort.1 hp)
      · exact List.mem_of_mem_filter hp
    refine hkeys p hp q (List.mem_mergeSort.1 hq) (fst_eq_of_sortedCmp field ?_)
    rw [hcmp] at hqp
    cases h : SqliteDriver.sortedCmp field p q <;> simp [h] at hpq hqp ⊢
  · refine List.pairwise_append.2 ⟨?_, ?_, ?_⟩
    · exact List.pairwise_mergeSort (fun a b c => Std.TransCmp.isLE_trans)
        (fun a b => by rw [hcmp a b]; cases SqliteDriver.sortedCmp field a b <;> rfl) _
    · refine (List.Pairwise.and_mem.1 (hitems.filter _)).imp ?_
      rintro p q ⟨hp, hq, hlt⟩
      rw [sortedCmp_both_missing (by simpa using (List.mem_filter.1 hp).2)
        (by simpa using (List.mem_filter.1 hq).2), hlt]
      rfl
    · intro p hp q hq
      have hp := (List.mem_filter.1 (List.mem_mergeSort.1 hp)).2
      exact sortedCmp_missing (by simpa using hp) (by simpa using (List.mem_filter.1 hq).2)
  · exact List.pairwise_mergeSort (fun a b c => Std.TransCmp.isLE_trans)
      (fun a b => by rw [hcmp a b]; cases SqliteDriver.sortedCmp field a b <;> rfl) _
  · refine ((List.mergeSort_perm _ _).append_right _).trans (.trans ?_ (List.mergeSort_perm _ _).symm)
    simpa [hpresent, hmissing] using
      List.filter_append_perm (fun p : String × Dict => p.2.value field ≠ .null) items

/-! ### Which row objects are up to date -/

/-- The standing of a row object of the caller. -/
structure Entry where
  entity : String
  key : String
  /-- it carries an `observed_version` -/
  versioned : Bool
  /-- nothing has happened to its row except through it -/
  current : Bool

/-- The standing of the caller's row objects, by position, and the position of the last row object
read under each key. -/
structure Ledger where
  entries : List Entry
  lastRead : String → String → Option Nat

/-- The entries after those at the positions `p` says went out of date. -/
def Ledger.outdate (L : Ledger) (p : Nat → Entry → Bool) : Ledger :=
  { L with entries := L.entries.mapIdx fun i x => { x with current := x.current && !p i x } }

/-- The ledger after a call of the caller and its answer: a delete, a rollback, and a write through
another row object put a row object out of date. -/
def Ledger.record (L : Ledger) (inTransaction : Bool) (c : Call) (a : Answer) : Ledger :=
  match c, a with
  | .read e k, .row (some _) =>
    { entries := L.entries ++ [{ entity := e, key := k, versioned := true, current := true }]
      lastRead := fun e' k' =>
        if e' = e ∧ k' = k then some L.entries.length else L.lastRead e' k' }
  | .create e k _, .affected _ =>
    { L with entries :=
        L.entries ++ [{ entity := e, key := k, versioned := false, current := true }] }
  | .update e k, .affected (_ + 1) =>
    L.outdate fun i x => x.entity = e && x.key = k && x.versioned && L.lastRead e k ≠ some i
  | .delete e k, .affected (_ + 1) => L.outdate fun _ x => x.entity = e && x.key = k
  | .persist i _, .done =>
    match L.entries[i]? with
    | some y => L.outdate fun j x => j ≠ i && x.entity = y.entity && x.key = y.key
    | none => L
  | .rollback, _ => if inTransaction then L.outdate fun _ _ => true else L
  | _, _ => L

/-- No call was made. -/
def Ledger.init : Ledger where
  entries := []
  lastRead := fun _ _ => none

/-- `FakeRepository` and the ledger of its caller. -/
def recorded (s : Fake × Ledger) (c : Call) : (Fake × Ledger) × Answer :=
  let r := s.1.call c
  ((r.1, s.2.record s.1.snapshot.isSome c r.2), r.2)

/-- The calls on which the drivers agree: they persist only through row objects that are up to
date, and sort only by values that Python can compare. -/
def Permits (s : Fake × Ledger) : Call → Prop
  | .persist i _ => ∀ x, s.2.entries[i]? = some x → x.current
  | .querySorted e field => Fake.incomparable field
      ((s.1.tables.itemsOf e).filter fun p => p.2.value field ≠ .null) = false
  | _ => True

/-! ### The simulation -/

/-- How the two drivers and the ledger see one row object of the caller. -/
structure Agree (F : Fake) (S : SqliteDriver) (o : Obj) (b : VersionedRow) (x : Entry) :
    Prop where
  entity : o.entity = x.entity ∧ b.entity = x.entity
  key : o.key = x.key ∧ b.key = x.key
  gen : o.gen < F.gen
  versioned : b.observedVersion.isSome = x.versioned
  current : x.current → F.heap o = b.row ∧ ∃ row, S.visible.get x.entity x.key = some row ∧
    ∀ v, b.observedVersion = some v → v = row.version

/-- The simulation relation. -/
structure Sim (s : Fake × Ledger) (S : SqliteDriver) : Prop where
  tables : s.1.tables = S.tables
  snapshot : s.1.snapshot =
    if S.inTransaction then some (S.committed.map fun _ _ row => row.payload) else none
  view : S.inTransaction = false → S.view = none
  home : ∀ e k o, s.1.rows.get e k = some o → o.entity = e ∧ o.key = k ∧ o.gen < s.1.gen
  length : s.1.held.length = S.held.length ∧ s.1.held.length = s.2.entries.length
  held : ∀ (i : Nat) o b x, s.1.held[i]? = some o → S.held[i]? = some b → s.2.entries[i]? = some x →
    Agree s.1 S o b x
  lastRead : s.2.lastRead = S.boundRows
  bound : ∀ e k j, S.boundRows e k = some j →
    ∃ x, s.2.entries[j]? = some x ∧ x.entity = e ∧ x.key = k

theorem sim_init (T : Lnpl.Lib.Tables String String (Dict × Nat)) :
    Sim (Fake.init (T.map fun _ _ r => r.1), Ledger.init) (SqliteDriver.init T) where
  tables := by
    refine Tables.ext_get fun e k => ?_
    cases h : T.get e k <;>
      simp [Fake.tables, Fake.init, Fake.copyOf, Fake.heapOf, SqliteDriver.tables,
        SqliteDriver.visible, SqliteDriver.init, h]
  snapshot := rfl
  view _ := rfl
  home e k o h := by
    obtain ⟨_, -, rfl⟩ := by simpa [Fake.init, Fake.copyOf] using h
    exact ⟨rfl, rfl, Nat.zero_lt_one⟩
  length := ⟨rfl, rfl⟩
  held i o b x h := by simp [Fake.init] at h
  lastRead := rfl
  bound e k j h := by simp [SqliteDriver.init] at h

/-- What one lookup of the equal tables says. -/
theorem Sim.get {s : Fake × Ledger} {S : SqliteDriver} (h : Sim s S) (e k : String) :
    (s.1.rows.get e k).map s.1.heap = (S.visible.get e k).map Row.payload := by
  have := congrArg (fun T => Tables.get T e k) h.tables
  simpa [Fake.tables, SqliteDriver.tables] using this

/-- The stored rows as the two drivers see them, under one key. -/
theorem Sim.get_cases {s : Fake × Ledger} {S : SqliteDriver} (h : Sim s S) (e k : String) :
    (s.1.rows.get e k = none ∧ S.visible.get e k = none) ∨
    ∃ o row, s.1.rows.get e k = some o ∧ S.visible.get e k = some row ∧
      s.1.heap o = row.payload := by
  have hget := h.get e k
  cases ho : s.1.rows.get e k with
  | none =>
    rw [ho] at hget
    exact .inl ⟨rfl, Option.map_eq_none_iff.1 hget.symm⟩
  | some o =>
    rw [ho] at hget
    obtain ⟨row, hrow, heq⟩ := Option.map_eq_some_iff.1 hget.symm
    exact .inr ⟨o, row, rfl, hrow, heq.symm⟩

@[simp]
theorem SqliteDriver.write_held (S : SqliteDriver) (R : Rows String String Dict Unit) :
    (S.write R).held = S.held := by
  unfold SqliteDriver.write
  split_ifs <;> rfl

@[simp]
theorem SqliteDriver.write_boundRows (S : SqliteDriver) (R : Rows String String Dict Unit) :
    (S.write R).boundRows = S.boundRows := by
  unfold SqliteDriver.write
  split_ifs <;> rfl

@[simp]
theorem SqliteDriver.write_inTransaction (S : SqliteDriver) (R : Rows String String Dict Unit) :
    (S.write R).inTransaction = S.inTransaction := by
  unfold SqliteDriver.write
  split_ifs <;> rfl

/-- A written state shows what was written, and `rollback` would still restore the same rows. -/
theorem Sim.write {s : Fake × Ledger} {S : SqliteDriver} (h : Sim s S)
    (R : Rows String String Dict Unit) :
    (S.write R).visible = R ∧
    (s.1.snapshot = if S.inTransaction then
      some ((S.write R).committed.map fun _ _ row => row.payload) else none) ∧
    (S.inTransaction = false → (S.write R).view = none) := by
  have hsnap := h.snapshot
  unfold SqliteDriver.write
  by_cases ht : S.inTransaction
  · simp only [ht, if_true] at hsnap ⊢
    exact ⟨rfl, hsnap, fun hf => by cases hf⟩
  · simp only [Bool.not_eq_true] at ht
    simp only [ht, Bool.false_eq_true, if_false] at hsnap ⊢
    have hview := h.view ht
    exact ⟨by simp [SqliteDriver.visible, hview], hsnap, fun _ => hview⟩

/-! ### The calls -/

/-- Position by position in a list with one element more. -/
theorem getElem?_snoc {α : Type} (l : List α) (a : α) (i : Nat) :
    (l ++ [a])[i]? = if i = l.length then some a else l[i]? := by
  by_cases h : i = l.length
  · simp [h]
  · rw [if_neg h, List.getElem?_append]
    split_ifs with hlt
    · rfl
    · rw [List.getElem?_eq_none (by simp; omega), List.getElem?_eq_none (by omega)]

variable {s : Fake × Ledger} {S : SqliteDriver}

/-- Writing the rows as they are changes nothing. -/
theorem Sim.write_same {s : Fake × Ledger} {S : SqliteDriver} (h : Sim s S) :
    Sim s (S.write S.visible) := by
  obtain ⟨hvis, hsnap, hview⟩ := h.write S.visible
  refine ⟨?_, by simpa using hsnap, by simpa using hview, h.home, by simpa using h.length,
    fun i o b x ho hb hx => ?_, by simpa using h.lastRead, by simpa using h.bound⟩
  · simp [h.tables, SqliteDriver.tables, hvis]
  · obtain ⟨he, hk, hg, hv, hc⟩ := h.held i o b x ho (by simpa using hb) hx
    exact ⟨he, hk, hg, hv, by simpa [hvis] using hc⟩

theorem sim_begin (h : Sim s S) : (recorded s .begin).2 = (S.call .begin).2 ∧
    Sim (recorded s .begin).1 (S.call .begin).1 := by
  have hsnap := h.snapshot
  by_cases ht : S.inTransaction
  · simp only [ht, if_true] at hsnap
    simp only [recorded, Fake.call, hsnap, SqliteDriver.call, ht, if_true, Ledger.record]
    exact ⟨trivial, h⟩
  · simp only [Bool.not_eq_true] at ht
    simp only [ht, Bool.false_eq_true, if_false] at hsnap
    simp only [recorded, Fake.call, hsnap, SqliteDriver.call, ht, Bool.false_eq_true, if_false,
      Ledger.record]
    refine ⟨trivial, h.tables, ?_, (fun hf => by cases hf), h.home, h.length, fun i o b x ho hb hx => ?_,
      h.lastRead, h.bound⟩
    · simp [h.tables, SqliteDriver.tables, SqliteDriver.visible, h.view ht]
    · obtain ⟨he, hk, hg, hv, hc⟩ := h.held i o b x ho hb hx
      exact ⟨he, hk, hg, hv, hc⟩

theorem sim_commit (h : Sim s S) : (recorded s .commit).2 = (S.call .commit).2 ∧
    Sim (recorded s .commit).1 (S.call .commit).1 := by
  refine ⟨rfl, h.tables, rfl, fun _ => rfl, h.home, h.length, fun i o b x ho hb hx => ?_,
    h.lastRead, h.bound⟩
  obtain ⟨he, hk, hg, hv, hc⟩ := h.held i o b x ho hb hx
  exact ⟨he, hk, hg, hv, hc⟩

theorem sim_read (h : Sim s S) (e k : String) :
    (recorded s (.read e k)).2 = (S.call (.read e k)).2 ∧
      Sim (recorded s (.read e k)).1 (S.call (.read e k)).1 := by
  obtain ⟨ho, hr⟩ | ⟨o, row, ho, hrow, heq⟩ := h.get_cases e k
  · simp only [recorded, Fake.call, ho, SqliteDriver.call, selectRow, hr, Ledger.record]
    exact ⟨trivial, h⟩
  · simp only [recorded, Fake.call, ho, SqliteDriver.call, selectRow, hrow, Ledger.record, heq]
    obtain ⟨hlen, hlen'⟩ := h.length
    refine ⟨trivial, h.tables, h.snapshot, h.view, h.home, by simp [← hlen, ← hlen'],
      fun i o' b x ho' hb hx => ?_, ?_, fun e' k' j hj => ?_⟩
    · simp only [getElem?_snoc, ← hlen, ← hlen'] at ho' hb hx
      split_ifs at ho' hb hx with hi
      · obtain rfl := Option.some.inj ho'
        obtain rfl := Option.some.inj hb
        obtain rfl := Option.some.inj hx
        obtain ⟨hoe, hok, hg⟩ := h.home e k _ ho
        exact ⟨⟨hoe, rfl⟩, ⟨hok, rfl⟩, hg, rfl, fun _ => ⟨heq, row, hrow, by simp⟩⟩
      · obtain ⟨he, hk, hg, hv, hc⟩ := h.held i o' b x ho' hb hx
        exact ⟨he, hk, hg, hv, hc⟩
    · rw [h.lastRead, ← hlen', hlen]
    · simp only [getElem?_snoc] at hj ⊢
      split_ifs at hj with hek
      · obtain rfl := Option.some.inj hj
        rw [if_pos (by omega)]
        exact ⟨_, rfl, hek.1.symm, hek.2.symm⟩
      · obtain ⟨x, hx, hxe⟩ := h.bound e' k' j hj
        have hlt : j < s.2.entries.length := (List.getElem?_eq_some_iff.1 hx).1
        rw [if_neg (by omega)]
        exact ⟨x, hx, hxe⟩

@[simp]
theorem outdate_lastRead (L : Ledger) (p : Nat → Entry → Bool) :
    (L.outdate p).lastRead = L.lastRead := rfl

/-- A row object is up to date after others went out of date only if it was and did not. -/
theorem outdate_get {L : Ledger} {p : Nat → Entry → Bool} {y : Entry}
    (h : (L.outdate p).entries[i]? = some y) :
    ∃ x, L.entries[i]? = some x ∧ y = { x with current := x.current && !p i x } := by
  simp only [Ledger.outdate, List.getElem?_mapIdx, Option.map_eq_some_iff] at h
  obtain ⟨x, hx, rfl⟩ := h
  exact ⟨x, hx, rfl⟩

section

variable (h : Sim s S)
include h

/-- Nothing an outdated entry says but its standing changes. -/
theorem Sim.bound_outdate (p : Nat → Entry → Bool) (e k : String) (j : Nat)
    (hj : S.boundRows e k = some j) :
    ∃ x, (s.2.outdate p).entries[j]? = some x ∧ x.entity = e ∧ x.key = k := by
  obtain ⟨x, hx, hxe⟩ := h.bound e k j hj
  exact ⟨{ x with current := x.current && !p j x }, by
    simp [Ledger.outdate, List.getElem?_mapIdx, hx], hxe⟩

theorem sim_delete (e k : String) :
    (recorded s (.delete e k)).2 = (S.call (.delete e k)).2 ∧
      Sim (recorded s (.delete e k)).1 (S.call (.delete e k)).1 := by
  obtain ⟨ho, hr⟩ | ⟨o, row, ho, hrow, heq⟩ := h.get_cases e k
  · have hdel : deleteRow S.visible e k = (S.visible, 0) := by simp [deleteRow, hr]
    simp only [recorded, Fake.call, ho, SqliteDriver.call, hdel, Ledger.record]
    exact ⟨trivial, h.write_same⟩
  · obtain ⟨hvis, hsnap, hview⟩ := h.write (deleteRow S.visible e k).1
    have hdel : (deleteRow S.visible e k).2 = 1 := by simp [deleteRow, hrow]
    simp only [recorded, Fake.call, ho, SqliteDriver.call, hdel, Ledger.record]
    refine ⟨trivial, ?_, by simpa using hsnap, by simpa using hview, fun e' k' o' ho' => ?_,
      by simpa [Ledger.outdate] using h.length, fun i o' b y ho' hb hy => ?_,
      by simpa using h.lastRead, fun e' k' j hj => h.bound_outdate _ e' k' j (by simpa using hj)⟩
    · refine Tables.ext_get fun e' k' => ?_
      have hget := h.get e' k'
      simp only [Fake.tables, SqliteDriver.tables, hvis, Tables.get_map, Tables.get_erase,
        get_deleteRow]
      split_ifs with hek
      · rfl
      · exact hget
    · simp only [Tables.get_erase] at ho'
      split_ifs at ho'
      exact h.home e' k' o' ho'
    · obtain ⟨x, hx, rfl⟩ := outdate_get hy
      obtain ⟨he, hk, hg, hv, hc⟩ := h.held i o' b x ho' (by simpa using hb) hx
      refine ⟨he, hk, hg, hv, fun hcur => ?_⟩
      simp only [Bool.and_eq_true, Bool.not_eq_true', Bool.and_eq_false_iff,
        decide_eq_false_iff_not] at hcur
      obtain ⟨hheap, r, hr, hver⟩ := hc hcur.1
      refine ⟨hheap, r, ?_, hver⟩
      rw [hvis, get_deleteRow, if_neg (by tauto)]
      exact hr

theorem sim_rollback : (recorded s .rollback).2 = (S.call .rollback).2 ∧
    Sim (recorded s .rollback).1 (S.call .rollback).1 := by
  have hsnap := h.snapshot
  by_cases ht : S.inTransaction
  · simp only [ht, if_true] at hsnap
    simp only [recorded, Fake.call, hsnap, SqliteDriver.call, Ledger.record, Option.isSome_some,
      if_true]
    refine ⟨trivial, ?_, rfl, fun _ => rfl, fun e k o ho => ?_,
      by simpa [Ledger.outdate] using h.length, fun i o b y ho hb hy => ?_, h.lastRead,
      fun e k j hj => h.bound_outdate _ e k j hj⟩
    · refine Tables.ext_get fun e k => ?_
      cases hr : S.committed.get e k <;>
        simp [Fake.tables, Fake.copyOf, Fake.heapOf, SqliteDriver.tables, SqliteDriver.visible, hr]
    · obtain ⟨_, -, rfl⟩ := by simpa [Fake.copyOf] using ho
      exact ⟨rfl, rfl, Nat.lt_succ_self _⟩
    · obtain ⟨x, hx, rfl⟩ := outdate_get hy
      obtain ⟨he, hk, hg, hv, hc⟩ := h.held i o b x ho hb hx
      exact ⟨he, hk, Nat.lt_succ_of_lt hg, hv, fun hcur => by simp at hcur⟩
  · simp only [Bool.not_eq_true] at ht
    simp only [ht, Bool.false_eq_true, if_false] at hsnap
    have hview := h.view ht
    simp only [recorded, Fake.call, hsnap, SqliteDriver.call, Ledger.record, Option.isSome_none,
      Bool.false_eq_true, if_false]
    have hS : { S with view := none, inTransaction := false } = S := by
      cases S
      simp_all
    rw [hS]
    exact ⟨trivial, h⟩

theorem sim_query (e : String) : (recorded s (.query e)).2 = (S.call (.query e)).2 ∧
    Sim (recorded s (.query e)).1 (S.call (.query e)).1 :=
  ⟨by simp only [recorded, Fake.call, SqliteDriver.call, h.tables], h⟩

theorem sim_querySorted (e field : String) (hP : Permits s (.querySorted e field)) :
    (recorded s (.querySorted e field)).2 = (S.call (.querySorted e field)).2 ∧
      Sim (recorded s (.querySorted e field)).1 (S.call (.querySorted e field)).1 := by
  refine ⟨?_, h⟩
  simp only [recorded, Fake.call, SqliteDriver.call, ← h.tables]
  exact querySorted_agree Std.ExtTreeMap.ordered_keys_toList hP

theorem sim_create (e k : String) (row : Dict) :
    (recorded s (.create e k row)).2 = (S.call (.create e k row)).2 ∧
      Sim (recorded s (.create e k row)).1 (S.call (.create e k row)).1 := by
  obtain ⟨ho, hr⟩ | ⟨o, old, ho, hrow, -⟩ := h.get_cases e k
  · obtain ⟨R, hR⟩ : ∃ R, insertRow S.visible e k (idRow k) () = some R := by
      simp [insertRow, hr]
    obtain ⟨hvis, hsnap, hview⟩ := h.write R
    simp only [recorded, Fake.call, ho, SqliteDriver.call, hR, Ledger.record]
    obtain ⟨hlen, hlen'⟩ := h.length
    have hstored : ∀ o : Obj, o.gen < s.1.gen → ∀ g, s.1.gen ≤ g → o ≠ ⟨g, e, k⟩ := by
      rintro o hg g hle rfl
      exact absurd hg (by simpa using hle)
    refine ⟨trivial, ?_, by simpa using hsnap, by simpa using hview, fun e' k' o' ho' => ?_,
      by simp [← hlen, ← hlen'], fun i o' b x ho' hb hx => ?_, by simpa using h.lastRead,
      fun e' k' j hj => ?_⟩
    · refine Tables.ext_get fun e' k' => ?_
      have hget := h.get e' k'
      simp only [Fake.tables, SqliteDriver.tables, SqliteDriver.visible, Tables.get_map,
        Tables.get_set]
      change _ = Option.map _ (Tables.get (S.write R).visible e' k')
      rw [hvis, (get_insertRow hR e' k').2]
      split_ifs with hek
      · simp
      · rw [← hget]
        cases ho' : s.1.rows.get e' k' with
        | none => rfl
        | some o' =>
          have hg := (h.home e' k' o' ho').2.2
          simp [Function.update_of_ne (hstored o' hg _ (Nat.le_refl _)),
            Function.update_of_ne (hstored o' hg _ (Nat.le_succ _))]
    · simp only [Tables.get_set] at ho'
      split_ifs at ho' with hek
      · obtain rfl := Option.some.inj ho'
        exact ⟨hek.1.symm, hek.2.symm, by simp⟩
      · obtain ⟨he, hk, hg⟩ := h.home e' k' o' ho'
        exact ⟨he, hk, Nat.lt_add_right 2 hg⟩
    · simp only [getElem?_snoc, ← hlen, ← hlen'] at ho' hb hx
      split_ifs at ho' hb hx with hi
      · obtain rfl := Option.some.inj ho'
        obtain rfl := Option.some.inj hb
        obtain rfl := Option.some.inj hx
        refine ⟨⟨rfl, rfl⟩, ⟨rfl, rfl⟩, by simp, rfl, fun _ => ⟨by simp, ?_⟩⟩
        change ∃ r, Tables.get (S.write R).visible e k = some r ∧ _
        rw [hvis, (get_insertRow hR e k).2]
        simp
      · obtain ⟨he, hk, hg, hv, hc⟩ := h.held i o' b x ho' hb hx
        refine ⟨he, hk, Nat.lt_add_right 2 hg, hv, fun hcur => ?_⟩
        obtain ⟨hheap, r, hr', hver⟩ := hc hcur
        refine ⟨?_, r, ?_, hver⟩
        · simpa [Function.update_of_ne (hstored o' hg _ (Nat.le_refl _)),
            Function.update_of_ne (hstored o' hg _ (Nat.le_succ _))] using hheap
        · change Tables.get (S.write R).visible x.entity x.key = some r
          rw [hvis, (get_insertRow hR _ _).2, if_neg]
          · exact hr'
          · rintro ⟨hxe, hxk⟩
            rw [hxe, hxk, hr] at hr'
            cases hr'
    · obtain ⟨x, hx, hxe⟩ := h.bound e' k' j (by simpa using hj)
      have hlt : j < s.2.entries.length := (List.getElem?_eq_some_iff.1 hx).1
      exact ⟨x, by rw [getElem?_snoc, if_neg (by omega)]; exact hx, hxe⟩
  · have hR : insertRow S.visible e k (idRow k) () = none := by simp [insertRow, hrow]
    simp only [recorded, Fake.call, ho, SqliteDriver.call, hR, Ledger.record]
    exact ⟨trivial, h.write_same⟩

end

/-- The row objects after an `update` that affected a row: the one bound under the key was
advanced, if there is one. -/
def SqliteDriver.advanceBound (S : SqliteDriver) (e k : String) : List VersionedRow :=
  match S.boundRows e k with
  | none => S.held
  | some j => S.held.modify j advance

variable {b : VersionedRow} {row : Row Dict Unit}

theorem advanceBound_get {e k : String} (h : (S.advanceBound e k)[i]? = some b) :
    ∃ a, S.held[i]? = some a ∧
      b = if S.boundRows e k = some i then SqliteDriver.advance a else a := by
  unfold SqliteDriver.advanceBound at h
  split at h
  · rename_i hnone
    exact ⟨b, h, by simp [hnone]⟩
  · rename_i j hj
    rw [List.getElem?_modify] at h
    obtain ⟨a, ha, rfl⟩ := Option.map_eq_some_iff.1 h
    exact ⟨a, ha, by simp [hj]⟩

theorem call_update_eq (S : SqliteDriver) (e k : String) (hrow : S.visible.get e k = some row) :
    S.call (.update e k) =
      ({ S.write (updateRow S.visible e k row.payload).1 with held := S.advanceBound e k },
        .affected 1) := by
  have hupd : updateRow S.visible e k row.payload =
      ((updateRow S.visible e k row.payload).1, 1) := by simp [updateRow, hrow]
  simp only [SqliteDriver.call, selectRow, hrow, Option.map_some, Option.getD_some]
  rw [hupd]
  simp only [SqliteDriver.advanceBound]
  cases S.boundRows e k with
  | none => rw [← SqliteDriver.write_held S]
  | some j => rfl

theorem sim_update (h : Sim s S) (e k : String) :
    (recorded s (.update e k)).2 = (S.call (.update e k)).2 ∧
      Sim (recorded s (.update e k)).1 (S.call (.update e k)).1 := by
  obtain ⟨ho, hr⟩ | ⟨o, row, ho, hrow, heq⟩ := h.get_cases e k
  · have hupd : ∀ p, updateRow S.visible e k p = (S.visible, 0) := by simp [updateRow, hr]
    simp only [recorded, Fake.call, ho, SqliteDriver.call, hupd, Ledger.record]
    exact ⟨rfl, h.write_same⟩
  · obtain ⟨hvis, hsnap, hview⟩ := h.write (updateRow S.visible e k row.payload).1
    rw [call_update_eq S e k hrow]
    simp only [recorded, Fake.call, ho, Option.isSome_some, if_true, Ledger.record]
    obtain ⟨hlen, hlen'⟩ := h.length
    refine ⟨trivial, ?_, by simpa using hsnap, by simpa using hview, h.home, ⟨?_, ?_⟩,
      fun i o' b y ho' hb hy => ?_, by simpa using h.lastRead,
      fun e' k' j hj => h.bound_outdate _ e' k' j (by simpa using hj)⟩
    · refine Tables.ext_get fun e' k' => ?_
      have hget := h.get e' k'
      simp only [Fake.tables, SqliteDriver.tables, Tables.get_map]
      change _ = Option.map _ (Tables.get (S.write _).visible e' k')
      rw [hvis, get_updateRow, hget]
      split_ifs with hek
      · simp [hek.1, hek.2, hrow, Row.updated]
      · rfl
    · unfold SqliteDriver.advanceBound
      split <;> simp [hlen]
    · simp [Ledger.outdate, hlen']
    · obtain ⟨x, hx, rfl⟩ := outdate_get hy
      obtain ⟨a, ha, rfl⟩ := advanceBound_get hb
      obtain ⟨he, hk, hg, hv, hc⟩ := h.held i o' a x ho' ha hx
      refine ⟨⟨he.1, ?_⟩, ⟨hk.1, ?_⟩, hg, ?_, fun hcur => ?_⟩
      · split_ifs <;> simp [SqliteDriver.advance, he.2]
      · split_ifs <;> simp [SqliteDriver.advance, hk.2]
      · split_ifs <;> simp [SqliteDriver.advance, hv]
      · simp only [Bool.and_eq_true, Bool.not_eq_true', Bool.and_eq_false_iff,
          decide_eq_false_iff_not, not_not] at hcur
        obtain ⟨hheap, r, hr, hver⟩ := hc hcur.1
        refine ⟨by split_ifs <;> simp [SqliteDriver.advance, hheap], ?_⟩
        change ∃ row', Tables.get (S.write _).visible x.entity x.key = some row' ∧ _
        rw [hvis, get_updateRow]
        split_ifs with hek hb hb
        · -- the bound row object is advanced with its row
          rw [hek.1, hek.2] at hr
          refine ⟨r.updated row.payload, by simp [hr], fun v hv => ?_⟩
          obtain ⟨u, hu, rfl⟩ : ∃ u, a.observedVersion = some u ∧ u + 1 = v := by
            simpa [SqliteDriver.advance] using hv
          simp [Row.updated, hver u hu]
        · -- another row object of the key is still up to date only without a version
          rw [hek.1, hek.2] at hr
          refine ⟨r.updated row.payload, by simp [hr], fun v hv' => ?_⟩
          have hvers : x.versioned = true := by simpa [hv'] using hv.symm
          obtain ((hne | hne) | hne) | hne := hcur.2
          · exact absurd hek.1 hne
          · exact absurd hek.2 hne
          · simp [hvers] at hne
          · rw [h.lastRead] at hne
            exact absurd hne hb
        · obtain ⟨x', hx', hxe⟩ := h.bound e k i hb
          obtain rfl : x = x' := by simpa [hx] using hx'
          exact absurd hxe hek
        · exact ⟨r, hr, hver⟩

/-- The outcome of a `persist` through a row object whose row is there at its version. -/
theorem call_persist_eq (S : SqliteDriver) (fields : List (String × Value))
    (hb : S.held[i]? = some b) (hrow : S.visible.get b.entity b.key = some row)
    (hver : ∀ v, b.observedVersion = some v → v = row.version) :
    S.call (.persist i fields) =
      ({ S.write (updateRow S.visible b.entity b.key (b.row.assign fields)).1 with
          held := S.held.set i (SqliteDriver.advance { b with row := b.row.assign fields }) },
        .done) := by
  simp only [SqliteDriver.call, hb]
  cases hv : b.observedVersion with
  | none => simp [SqliteDriver.advance]
  | some v =>
    obtain rfl := hver v hv
    have hupd : updateRowVersioned S.visible b.entity b.key (b.row.assign fields) row.version =
        ((updateRow S.visible b.entity b.key (b.row.assign fields)).1, 1) := by
      simp [updateRowVersioned, updateRow, hrow]
    simp only [hupd]

theorem sim_persist (h : Sim s S) (i : Nat) (fields : List (String × Value))
    (hP : Permits s (.persist i fields)) :
    (recorded s (.persist i fields)).2 = (S.call (.persist i fields)).2 ∧
      Sim (recorded s (.persist i fields)).1 (S.call (.persist i fields)).1 := by
  obtain ⟨hlen, hlen'⟩ := h.length
  cases ho : s.1.held[i]? with
  | none =>
    have hb : S.held[i]? = none := by
      rw [List.getElem?_eq_none_iff] at ho ⊢
      omega
    simp only [recorded, Fake.call, ho, SqliteDriver.call, hb, Ledger.record]
    exact ⟨trivial, h⟩
  | some o =>
    have hi : i < s.1.held.length := (List.getElem?_eq_some_iff.1 ho).1
    obtain ⟨b, hb⟩ : ∃ b, S.held[i]? = some b := ⟨_, List.getElem?_eq_getElem (hlen ▸ hi)⟩
    obtain ⟨x, hx⟩ : ∃ x, s.2.entries[i]? = some x := ⟨_, List.getElem?_eq_getElem (hlen' ▸ hi)⟩
    obtain ⟨⟨hoe, hbe⟩, ⟨hok, hbk⟩, hg, hv, hc⟩ := h.held i o b x ho hb hx
    obtain ⟨hheap, row, hrow, hver⟩ := hc (hP x hx)
    rw [call_persist_eq S fields hb (hbe ▸ hbk ▸ hrow) hver]
    obtain ⟨hvis, hsnap, hview⟩ :=
      h.write (updateRow S.visible b.entity b.key (b.row.assign fields)).1
    simp only [recorded, Fake.call, ho, Ledger.record, hx]
    refine ⟨trivial, ?_, by simpa using hsnap, by simpa using hview, fun e k o' ho' => ?_,
      ⟨by simpa using hlen, by simpa [Ledger.outdate] using hlen'⟩,
      fun j o' b' y ho' hb' hy => ?_, by simpa using h.lastRead,
      fun e k j hj => h.bound_outdate _ e k j (by simpa using hj)⟩
    · refine Tables.ext_get fun e k => ?_
      have hget := h.get e k
      simp only [Fake.tables, SqliteDriver.tables, Tables.get_map]
      change _ = Option.map _ (Tables.get (S.write _).visible e k)
      rw [hvis, get_updateRow, Tables.get_set, hoe, hok, hbe, hbk]
      split_ifs with hek
      · simp [hrow, Row.updated, hheap]
      · rw [← hget]
        cases ho' : s.1.rows.get e k with
        | none => rfl
        | some o' =>
          obtain ⟨he', hk', -⟩ := h.home e k o' ho'
          have hne : o' ≠ o := by
            rintro rfl
            exact hek ⟨he'.symm.trans hoe, hk'.symm.trans hok⟩
          simp [Function.update_of_ne hne]
    · simp only [Tables.get_set] at ho'
      split_ifs at ho' with hek
      · obtain rfl := Option.some.inj ho'
        exact ⟨hek.1.symm, hek.2.symm, hg⟩
      · exact h.home e k o' ho'
    · obtain ⟨z, hz, rfl⟩ := outdate_get hy
      simp only [List.getElem?_set] at hb'
      split_ifs at hb' with hij
      · -- the row object itself
        subst hij
        obtain rfl := Option.some.inj hb'
        obtain rfl : o = o' := by simpa [ho] using ho'
        obtain rfl : x = z := by simpa [hx] using hz
        refine ⟨⟨hoe, hbe⟩, ⟨hok, hbk⟩, hg, by simpa [SqliteDriver.advance] using hv, fun _ => ?_⟩
        refine ⟨by simp [SqliteDriver.advance, hheap], ?_⟩
        change ∃ r, Tables.get (S.write _).visible x.entity x.key = some r ∧ _
        rw [hvis, get_updateRow, if_pos ⟨hbe.symm, hbk.symm⟩, hbe, hbk, hrow]
        refine ⟨_, rfl, fun v hv' => ?_⟩
        obtain ⟨u, hu, rfl⟩ : ∃ u, b.observedVersion = some u ∧ u + 1 = v := by
          simpa [SqliteDriver.advance] using hv'
        simp [Row.updated, hver u hu]
      · obtain ⟨he', hk', hg', hv', hc'⟩ := h.held j o' b' z ho' hb' hz
        refine ⟨he', hk', hg', hv', fun hcur => ?_⟩
        simp only [Bool.and_eq_true, Bool.not_eq_true', Bool.and_eq_false_iff,
          decide_eq_false_iff_not, not_not] at hcur
        obtain ⟨hheap', r, hr, hver'⟩ := hc' hcur.1
        have hne : ¬ (z.entity = x.entity ∧ z.key = x.key) := by
          obtain (hji | hze) | hzk := hcur.2
          · exact absurd hji.symm hij
          · exact fun hz => hze hz.1
          · exact fun hz => hzk hz.2
        have hoo : o' ≠ o := by
          rintro rfl
          exact hne ⟨he'.1.symm.trans hoe, hk'.1.symm.trans hok⟩
        refine ⟨by simpa [Function.update_of_ne hoo] using hheap', r, ?_, hver'⟩
        change Tables.get (S.write _).visible z.entity z.key = some r
        rw [hvis, get_updateRow, if_neg (by rwa [hbe, hbk])]
        exact hr

/-- **One call.** -/
theorem sim_call (h : Sim s S) (c : Call) (hP : Permits s c) :
    (recorded s c).2 = (S.call c).2 ∧ Sim (recorded s c).1 (S.call c).1 := by
  cases c with
  | begin => exact sim_begin h
  | read e k => exact sim_read h e k
  | create e k row => exact sim_create h e k row
  | update e k => exact sim_update h e k
  | delete e k => exact sim_delete h e k
  | persist i fields => exact sim_persist h i fields hP
  | query e => exact sim_query h e
  | querySorted e field => exact sim_querySorted h e field hP
  | commit => exact sim_commit h
  | rollback => exact sim_rollback h

/-- The ledger does not touch the driver. -/
theorem runCalls_recorded (cs : List Call) (s : Fake × Ledger) :
    (runCalls recorded s cs).2 = (runCalls Fake.call s.1 cs).2 ∧
      (runCalls recorded s cs).1.1 = (runCalls Fake.call s.1 cs).1 := by
  induction cs generalizing s with
  | nil => exact ⟨rfl, rfl⟩
  | cons c cs ih =>
    obtain ⟨hans, hfinal⟩ := ih (recorded s c).1
    simp only [runCalls, recorded] at hans hfinal ⊢
    rw [hans, hfinal]
    exact ⟨rfl, rfl⟩

/-- A store of one order. -/
def oneOrder : Lnpl.Lib.Tables String String (Dict × Nat) :=
  Tables.empty.set "Order" "o-1" (idRow "o-1", 0)

/-- A run that reads the order and sets it. -/
def setCalls : List Call :=
  [.begin, .read "Order" "o-1", .persist 0 [("qty", .int 2)], .query "Order", .commit]

/-- A run that deletes the order it read before it sets it. -/
def deletedCalls : List Call :=
  [.begin, .read "Order" "o-1", .delete "Order" "o-1", .persist 0 [("qty", .int 2)]]

end Lnpl.Drivers.Repository
