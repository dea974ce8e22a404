import Lnpl.Drivers.Equiv.Repository
import Lnpl.Drivers.RowVersions

/-!
# Phantom write conflicts

While no other connection writes, a set of a row that is there is to raise no write conflict, and
after a write the row object that is bound for its key is to have the stored version.  Both hold
throughout a run if and only if every create that stores a row finds no row object bound for its
key, or one that has by chance the version that the create gives the row (`exact_iff`): a create
does not advance the row object of the row that was deleted.
-/

namespace Lnpl.Drivers.RowVersions

open Lnpl.Lib
open Lnpl.Drivers.Repository
open Lnpl.Drivers.Sqlite

/-- A step raises no write conflict for a row that is there, and if it writes, the row object that
is bound for the key has the version that is stored. -/
structure Exact (r : Run) (s : Step) : Prop where
  no_phantom : ∀ e fields k b row, s = .set e fields → r.Bound e k b → r.stored e k = some row →
    ∀ failure, (r.step s).2 ≠ .failed failure
  version : Wrote (r.step s).2 → ∀ e k, Writes r e k s → ∀ b row, (r.next s).Bound e k b →
    (r.next s).stored e k = some row → b.observedVersion = some row.version

/-- A create that stores a row finds no row object bound for the key, or one of the version that it
gives the row. -/
def Anew (r : Run) : Step → Prop
  | .create e k seeded declaresId => r.stored e k = none → ∀ b, r.Bound e k b →
      b.observedVersion = some (createdVersion seeded declaresId)
  | _ => True

/-! ### The driver -/

/-- The rows outside a transaction are the committed ones, and the row object that is registered for
a key was read under it. -/
structure WellFormed (S : SqliteDriver) : Prop where
  view : S.inTransaction = false → S.view = none
  registered : ∀ e k j, S.boundRows e k = some j →
    ∃ b, S.held[j]? = some b ∧ b.entity = e ∧ b.key = k

variable {S : SqliteDriver} {held : List VersionedRow} {e k : String} {i : Nat} {b : VersionedRow}
  {r : Run} {row : Row Dict Unit}

/-- The driver after a statement and what it does to the row objects. -/
theorem WellFormed.write (h : WellFormed S) (R : Rows String String Dict Unit)
    (hheld : ∀ (j : Nat) b, S.held[j]? = some b →
      ∃ b', held[j]? = some b' ∧ b'.entity = b.entity ∧ b'.key = b.key) :
    WellFormed { S.write R with held := held } := by
  constructor
  · intro hclosed
    rw [SqliteDriver.write_inTransaction] at hclosed
    rw [SqliteDriver.write, hclosed]
    exact h.view hclosed
  · intro e k j hj
    rw [SqliteDriver.write_boundRows] at hj
    obtain ⟨b, hb, he, hk⟩ := h.registered e k j hj
    obtain ⟨b', hb', he', hk'⟩ := hheld j b hb
    exact ⟨b', hb', he'.trans he, hk'.trans hk⟩

theorem visible_write (h : WellFormed S) (R : Rows String String Dict Unit) :
    (S.write R).visible = R := by
  rw [SqliteDriver.write]
  by_cases hopen : S.inTransaction = true
  · rw [if_pos hopen]
    rfl
  · rw [if_neg hopen, SqliteDriver.visible, h.view (Bool.eq_false_iff.mpr hopen)]
    rfl

theorem call_update_none (S : SqliteDriver) (hrow : S.visible.get e k = none) :
    S.call (.update e k) = (S.write S.visible, .affected 0) := by
  have hupdate : ∀ payload, updateRow S.visible e k payload = (S.visible, 0) := by
    intro payload
    rw [updateRow, hrow]
  simp only [SqliteDriver.call, hupdate]

/-- A row object whose row is gone is not persisted. -/
theorem call_persist_none (S : SqliteDriver) {version : Nat} (fields : List (String × Value))
    (hb : S.held[i]? = some b) (hversion : b.observedVersion = some version)
    (hrow : S.visible.get b.entity b.key = none) :
    S.call (.persist i fields) =
      ({ S.write S.visible with held := S.held.set i { b with row := b.row.assign fields } },
        .failed .writeConflict) := by
  have hupdate : updateRowVersioned S.visible b.entity b.key (b.row.assign fields) version =
      (S.visible, 0) := by
    rw [updateRowVersioned, hrow]
  simp only [SqliteDriver.call, hb, hversion, hupdate]

variable {a : VersionedRow} {seeded : Dict} {declaresId : Bool}

/-- The row objects, one of them replaced by one of the same key. -/
theorem getElem?_set_keys {a' : VersionedRow} (ha : held[i]? = some a) (he : a'.entity = a.entity)
    (hk : a'.key = a.key) (j : Nat) (b : VersionedRow) (hb : held[j]? = some b) :
    ∃ b', (held.set i a')[j]? = some b' ∧ b'.entity = b.entity ∧ b'.key = b.key := by
  by_cases hij : i = j
  · subst hij
    rw [ha] at hb
    obtain rfl := Option.some.inj hb
    exact ⟨a', List.getElem?_set_self (List.getElem?_eq_some_iff.mp ha).1, he, hk⟩
  · exact ⟨b, by rw [List.getElem?_set_ne hij, hb], rfl, rfl⟩

theorem getElem?_advanceBound_keys (S : SqliteDriver) (e k : String) (j : Nat) (b : VersionedRow)
    (hb : S.held[j]? = some b) :
    ∃ b', (S.advanceBound e k)[j]? = some b' ∧ b'.entity = b.entity ∧ b'.key = b.key := by
  unfold SqliteDriver.advanceBound
  cases S.boundRows e k with
  | none => exact ⟨b, hb, rfl, rfl⟩
  | some i =>
    dsimp only
    rw [List.getElem?_modify, hb]
    by_cases hij : i = j
    · exact ⟨SqliteDriver.advance b, by simp [hij], rfl, rfl⟩
    · exact ⟨b, by simp [hij], rfl, rfl⟩

/-- A call leaves the driver well-formed. -/
theorem wellFormed_call (h : WellFormed S) (c : Call) : WellFormed (S.call c).1 := by
  have hsame : ∀ (j : Nat) b, S.held[j]? = some b →
      ∃ b', S.held[j]? = some b' ∧ b'.entity = b.entity ∧ b'.key = b.key :=
    fun j b hb => ⟨b, hb, rfl, rfl⟩
  have hwrite : ∀ R, WellFormed (S.write R) := by
    intro R
    have hR := h.write R hsame
    rwa [← SqliteDriver.write_held S R] at hR
  cases c with
  | begin =>
    rw [SqliteDriver.call]
    split
    · exact h
    · exact ⟨fun hfalse => (Bool.noConfusion hfalse), h.registered⟩
  | read e k =>
    rw [SqliteDriver.call]
    cases hrow : selectRow S.visible e k with
    | none => exact h
    | some row =>
      refine ⟨h.view, ?_⟩
      intro e' k' j hj
      dsimp only at hj ⊢
      by_cases hkey : e' = e ∧ k' = k
      · rw [if_pos hkey] at hj
        obtain rfl := Option.some.inj hj
        rw [List.getElem?_concat_length]
        exact ⟨_, rfl, hkey.1.symm, hkey.2.symm⟩
      · rw [if_neg hkey] at hj
        obtain ⟨b, hb, hkeys⟩ := h.registered e' k' j hj
        exact ⟨b, List.getElem?_append_left (List.getElem?_eq_some_iff.mp hb).1 ▸ hb, hkeys⟩
  | create e k row =>
    rw [SqliteDriver.call]
    cases hinsert : insertRow S.visible e k (idRow k) () with
    | none => exact hwrite S.visible
    | some R =>
      apply h.write
      intro j b hb
      exact ⟨b, List.getElem?_append_left (List.getElem?_eq_some_iff.mp hb).1 ▸ hb, rfl, rfl⟩
  | update e k =>
    cases hrow : S.visible.get e k with
    | none =>
      rw [call_update_none S hrow]
      exact hwrite _
    | some row =>
      rw [call_update_eq S e k hrow]
      exact h.write _ (getElem?_advanceBound_keys S e k)
  | delete e k => exact hwrite _
  | persist i fields =>
    rw [SqliteDriver.call]
    cases hb : S.held[i]? with
    | none => exact h
    | some b =>
      dsimp only
      cases b.observedVersion with
      | none => exact h.write _ (getElem?_set_keys hb rfl rfl)
      | some version =>
        dsimp only
        cases updateRowVersioned S.visible b.entity b.key (b.row.assign fields) version with
        | mk R count =>
          cases count with
          | zero => exact h.write R (getElem?_set_keys hb rfl rfl)
          | succ count => exact h.write R (getElem?_set_keys hb rfl rfl)
  | query e => exact h
  | querySorted e field => exact h
  | commit => exact ⟨fun _ => rfl, h.registered⟩
  | rollback => exact ⟨fun _ => rfl, h.registered⟩

theorem wellFormed_step (h : WellFormed r.driver) (s : Step) : WellFormed (r.next s).driver := by
  cases s with
  | read e k =>
    have hcall := wellFormed_call h (.read e k)
    rw [Run.next, Run.step]
    cases hresult : r.driver.call (.read e k) with
    | mk S answer =>
      rw [hresult] at hcall
      split
      · next heq => exact (Prod.mk.inj heq).1 ▸ hcall
      · next heq => exact (Prod.mk.inj heq).1 ▸ hcall
  | update e k => exact wellFormed_call h _
  | delete e k => exact wellFormed_call h _
  | create e k seeded declaresId =>
    have hcall := wellFormed_call h (.create e k seeded)
    rw [Run.next, Run.step, Run.call]
    cases (r.driver.call (.create e k seeded)).2 with
    | affected n =>
      dsimp only
      by_cases hpersists : persistsSeeded seeded declaresId = true
      · rw [if_pos hpersists]
        exact wellFormed_call hcall _
      · rw [if_neg hpersists]
        exact hcall
    | done | row | rows | failed | notHeld => exact hcall
  | set e fields =>
    rw [Run.next, Run.step]
    cases r.bindings e with
    | none => exact h
    | some i => exact wellFormed_call h _

/-! ### What is bound -/

/-- The row object that is bound for an entity is the one that is registered for its key, and it has
the version of the row, if the row is there. -/
structure Tracks (r : Run) : Prop where
  wellFormed : WellFormed r.driver
  bound : ∀ e i, r.bindings e = some i → ∃ b version, r.driver.held[i]? = some b ∧ b.entity = e ∧
    r.driver.boundRows e b.key = some i ∧ b.observedVersion = some version ∧
    ∀ row, r.stored e b.key = some row → row.version = version

theorem Tracks.version (h : Tracks r) (hb : r.Bound e k b) (hrow : r.stored e k = some row) :
    b.observedVersion = some row.version := by
  obtain ⟨i, hi, hheld, hk⟩ := hb
  obtain ⟨b', version, hheld', -, -, hversion, hstored⟩ := h.bound e i hi
  rw [hheld] at hheld'
  obtain rfl := Option.some.inj hheld'
  subst hk
  rw [hversion, hstored row hrow]

theorem step_read_none (hrow : r.stored e k = none) : r.step (.read e k) = (r, .row none) := by
  have hcall : r.driver.call (.read e k) = (r.driver, .row none) := by
    rw [SqliteDriver.call, show selectRow r.driver.visible e k = none from hrow]
  rw [Run.step, hcall]

theorem step_read_some (hrow : r.stored e k = some row) :
    r.step (.read e k) =
      ({ driver :=
          { r.driver with
            held := r.driver.held ++ [⟨e, k, row.payload, some row.version⟩]
            boundRows := fun e' k' =>
              if e' = e ∧ k' = k then some r.driver.held.length else r.driver.boundRows e' k' }
         bindings := Function.update r.bindings e (some r.driver.held.length) },
        .row (some row.payload)) := by
  have hselect : selectRow r.driver.visible e k = some row := hrow
  simp only [Run.step, SqliteDriver.call, hselect]

theorem tracks_read (h : Tracks r) (e k : String) : Tracks (r.next (.read e k)) := by
  have hformed := wellFormed_step h.wellFormed (.read e k)
  cases hrow : r.stored e k with
  | none =>
    rw [Run.next, step_read_none hrow]
    exact h
  | some row =>
    refine ⟨hformed, ?_⟩
    intro e' i hi
    rw [Run.next, step_read_some hrow] at hi ⊢
    dsimp only at hi ⊢
    by_cases he : e' = e
    · subst he
      rw [Function.update_self] at hi
      obtain rfl := Option.some.inj hi
      refine ⟨_, row.version, List.getElem?_concat_length, rfl, if_pos ⟨rfl, rfl⟩, rfl, ?_⟩
      intro row' hrow'
      have heq : some row = some row' := hrow.symm.trans hrow'
      rw [Option.some.inj heq]
    · rw [Function.update_of_ne he] at hi
      obtain ⟨b, version, hheld, hentity, hregistered, hversion, hstored⟩ := h.bound e' i hi
      have hlt := (List.getElem?_eq_some_iff.mp hheld).1
      refine ⟨b, version, by rw [List.getElem?_append_left hlt, hheld], hentity, ?_, hversion,
        hstored⟩
      rw [if_neg (fun hkey => he hkey.1)]
      exact hregistered

/-- What is bound after a statement that leaves the row objects and their versions, but for the one
that is bound for the key that it wrote. -/
theorem tracks_of_write {r' : Run} (h : Tracks r) (hformed : WellFormed r'.driver)
    (hbindings : r'.bindings = r.bindings) (hregistered : r'.driver.boundRows = r.driver.boundRows)
    (hheld : ∀ e i b version, r.bindings e = some i → r.driver.held[i]? = some b → b.entity = e →
      r.driver.boundRows e b.key = some i → b.observedVersion = some version →
      (∀ row, r.stored e b.key = some row → row.version = version) →
      ∃ b' version', r'.driver.held[i]? = some b' ∧ b'.entity = b.entity ∧ b'.key = b.key ∧
        b'.observedVersion = some version' ∧
        ∀ row, r'.stored e b.key = some row → row.version = version') : Tracks r' := by
  refine ⟨hformed, ?_⟩
  intro e i hi
  rw [hbindings] at hi
  obtain ⟨b, version, hb, hentity, hbound, hversion, hstored⟩ := h.bound e i hi
  obtain ⟨b', version', hb', hentity', hkey, hversion', hstored'⟩ :=
    hheld e i b version hi hb hentity hbound hversion hstored
  refine ⟨b', version', hb', hentity'.trans hentity, ?_, hversion', ?_⟩
  · rw [hregistered, hkey]
    exact hbound
  · rw [hkey]
    exact hstored'

theorem tracks_delete (h : Tracks r) (e k : String) : Tracks (r.next (.delete e k)) := by
  have hcall : r.next (.delete e k) =
      { r with driver := r.driver.write (deleteRow r.driver.visible e k).1 } := rfl
  apply tracks_of_write h (wellFormed_step h.wellFormed _) rfl
  · rw [hcall]
    exact SqliteDriver.write_boundRows _ _
  · intro e' i b version _ hb _ _ hversion hstored
    refine ⟨b, version, ?_, rfl, rfl, hversion, ?_⟩
    · rw [hcall]
      dsimp only
      rw [SqliteDriver.write_held, hb]
    · intro row hrow
      rw [hcall, Run.stored, selectRow, visible_write h.wellFormed, get_deleteRow] at hrow
      by_cases hkey : e' = e ∧ b.key = k
      · rw [if_pos hkey] at hrow
        cases hrow
      · rw [if_neg hkey] at hrow
        exact hstored row hrow

theorem tracks_update (h : Tracks r) (e k : String) : Tracks (r.next (.update e k)) := by
  have hformed := wellFormed_step h.wellFormed (.update e k)
  cases hrow : r.driver.visible.get e k with
  | none =>
    have hcall : r.next (.update e k) = { r with driver := r.driver.write r.driver.visible } := by
      rw [Run.next, Run.step, Run.call, call_update_none _ hrow]
    apply tracks_of_write h hformed rfl
    · rw [hcall]
      exact SqliteDriver.write_boundRows _ _
    · intro e' i b version _ hb _ _ hversion hstored
      refine ⟨b, version, ?_, rfl, rfl, hversion, ?_⟩
      · rw [hcall]
        dsimp only
        rw [SqliteDriver.write_held, hb]
      · intro row hrow'
        rw [hcall, Run.stored, selectRow, visible_write h.wellFormed] at hrow'
        exact hstored row hrow'
  | some row =>
    have hcall : r.next (.update e k) =
        { r with
          driver :=
            { r.driver.write (updateRow r.driver.visible e k row.payload).1 with
              held := r.driver.advanceBound e k } } := by
      rw [Run.next, Run.step, Run.call, call_update_eq _ _ _ hrow]
    have hvisible : (r.next (.update e k)).driver.visible =
        (updateRow r.driver.visible e k row.payload).1 := by
      rw [hcall]
      exact visible_write h.wellFormed _
    apply tracks_of_write h hformed rfl
    · rw [hcall]
      exact SqliteDriver.write_boundRows _ _
    · intro e' i b version _ hb hentity hbound hversion hstored
      rw [Run.stored, hvisible, selectRow, get_updateRow, hcall]
      dsimp only
      rw [SqliteDriver.advanceBound]
      by_cases hkey : e' = e ∧ b.key = k
      · -- The row object of the row that is updated is registered for its key.
        rw [hkey.1, hkey.2] at hbound hstored
        refine ⟨SqliteDriver.advance b, version + 1, ?_, rfl, rfl, ?_, ?_⟩
        · rw [hbound]
          dsimp only
          rw [List.getElem?_modify, hb]
          simp
        · rw [SqliteDriver.advance, hversion]
          rfl
        · intro row' hrow'
          rw [if_pos hkey, hrow] at hrow'
          obtain rfl := Option.some.inj hrow'
          show row.version + 1 = version + 1
          rw [hstored row hrow]
      · refine ⟨b, version, ?_, rfl, rfl, hversion, ?_⟩
        · cases hregistered : r.driver.boundRows e k with
          | none => exact hb
          | some j =>
            -- Another row object is registered for the key.
            obtain ⟨a, ha, hae, hak⟩ := h.wellFormed.registered e k j hregistered
            have hij : j ≠ i := by
              rintro rfl
              rw [hb] at ha
              obtain rfl := Option.some.inj ha
              exact hkey ⟨hentity.symm.trans hae, hak⟩
            dsimp only
            rw [List.getElem?_modify, hb]
            simp [hij]
        · intro row' hrow'
          rw [if_neg hkey] at hrow'
          exact hstored row' hrow'

/-- The row objects behind one that is replaced. -/
theorem ne_of_entity_ne {j : Nat} (ha : held[i]? = some a) (hb : held[j]? = some b)
    (h : a.entity ≠ b.entity) : i ≠ j := by
  rintro rfl
  rw [ha] at hb
  exact h (congrArg VersionedRow.entity (Option.some.inj hb))

theorem tracks_set (h : Tracks r) (e : String) (fields : List (String × Value)) :
    Tracks (r.next (.set e fields)) := by
  have hformed := wellFormed_step h.wellFormed (.set e fields)
  cases hi : r.bindings e with
  | none =>
    have hcall : r.next (.set e fields) = r := by
      rw [Run.next, Run.step, hi]
    rw [hcall]
    exact h
  | some i =>
    obtain ⟨a, aversion, ha, hae, -, haversion, hastored⟩ := h.bound e i hi
    cases hrow : r.driver.visible.get a.entity a.key with
    | none =>
      have hcall : r.next (.set e fields) =
          { r with
            driver :=
              { r.driver.write r.driver.visible with
                held := r.driver.held.set i { a with row := a.row.assign fields } } } := by
        rw [Run.next, Run.step, hi]
        exact congrArg (fun t => { r with driver := t.1 })
          (call_persist_none r.driver fields ha haversion hrow)
      have hvisible : (r.next (.set e fields)).driver.visible = r.driver.visible := by
        rw [hcall]
        exact visible_write h.wellFormed _
      apply tracks_of_write h hformed (by rw [hcall])
      · rw [hcall]
        exact SqliteDriver.write_boundRows _ _
      · intro e' i' b version hi' hb hentity _ hversion hstored
        rw [Run.stored, hvisible, hcall]
        dsimp only
        by_cases hii : i = i'
        · subst hii
          rw [ha] at hb
          obtain rfl := Option.some.inj hb
          refine ⟨_, version, List.getElem?_set_self (List.getElem?_eq_some_iff.mp ha).1, rfl, rfl,
            hversion, hstored⟩
        · exact ⟨b, version, by rw [List.getElem?_set_ne hii, hb], rfl, rfl, hversion, hstored⟩
    | some row =>
      have hcurrent : ∀ v, a.observedVersion = some v → v = row.version := by
        intro v hv
        rw [haversion] at hv
        rw [← Option.some.inj hv]
        exact (hastored row (hae ▸ hrow)).symm
      have hcall : r.next (.set e fields) =
          { r with
            driver :=
              { r.driver.write (updateRow r.driver.visible a.entity a.key
                  (a.row.assign fields)).1 with
                held := r.driver.held.set i
                  (SqliteDriver.advance { a with row := a.row.assign fields }) } } := by
        rw [Run.next, Run.step, hi]
        exact congrArg (fun t => { r with driver := t.1 })
          (call_persist_eq r.driver fields ha hrow hcurrent)
      have hvisible : (r.next (.set e fields)).driver.visible =
          (updateRow r.driver.visible a.entity a.key (a.row.assign fields)).1 := by
        rw [hcall]
        exact visible_write h.wellFormed _
      apply tracks_of_write h hformed (by rw [hcall])
      · rw [hcall]
        exact SqliteDriver.write_boundRows _ _
      · intro e' i' b version hi' hb hentity _ hversion hstored
        rw [Run.stored, hvisible, selectRow, get_updateRow, hcall]
        dsimp only
        by_cases he : e' = e
        · -- The row object that is set.
          subst he
          rw [hi] at hi'
          obtain rfl := Option.some.inj hi'
          rw [ha] at hb
          obtain rfl := Option.some.inj hb
          refine ⟨_, version + 1, List.getElem?_set_self (List.getElem?_eq_some_iff.mp ha).1, rfl,
            rfl, ?_, ?_⟩
          · rw [SqliteDriver.advance, hversion]
            rfl
          · intro row' hrow'
            rw [if_pos ⟨hentity.symm, rfl⟩, hrow] at hrow'
            obtain rfl := Option.some.inj hrow'
            show row.version + 1 = version + 1
            rw [hstored row (hae ▸ hrow)]
        · have hne : a.entity ≠ b.entity := by
            rw [hae, hentity]
            exact fun heq => he heq.symm
          refine ⟨b, version, ?_, rfl, rfl, hversion, ?_⟩
          · rw [List.getElem?_set_ne (ne_of_entity_ne ha hb hne), hb]
          · intro row' hrow'
            rw [if_neg (fun hkey => he (hkey.1.trans hae))] at hrow'
            exact hstored row' hrow'

/-! ### Creates -/

theorem step_create_some (hrow : r.stored e k = some row) :
    r.step (.create e k seeded declaresId) =
      ({ r with driver := r.driver.write r.driver.visible }, .failed .conflict) := by
  have hget : r.driver.visible.get e k = some row := hrow
  have hinsert : insertRow r.driver.visible e k (idRow k) () = none := by
    rw [insertRow, hget]
  simp only [Run.step, Run.call, SqliteDriver.call, hinsert]

/-- What a create that stores a row leaves. -/
structure Created (r r' : Run) (e k : String) (version : Nat) : Prop where
  bindings : r'.bindings = r.bindings
  registered : r'.driver.boundRows = r.driver.boundRows
  held : ∀ (i : Nat) b, r.driver.held[i]? = some b → r'.driver.held[i]? = some b
  row : ∃ row, r'.stored e k = some row ∧ row.version = version
  others : ∀ e' k', ¬(e' = e ∧ k' = k) → r'.stored e' k' = r.stored e' k'

theorem created_of_none {r : Run} (h : WellFormed r.driver) {e k : String} {seeded : Dict}
    {declaresId : Bool} (hrow : r.stored e k = none) :
    Created r (r.next (.create e k seeded declaresId)) e k (createdVersion seeded declaresId) ∧
      Wrote (r.step (.create e k seeded declaresId)).2 := by
  have hget : r.driver.visible.get e k = none := hrow
  obtain ⟨R, hinsert⟩ : ∃ R, insertRow r.driver.visible e k (idRow k) () = some R := by
    rw [insertRow, hget]
    exact ⟨_, rfl⟩
  have hR : ∀ e' k', R.get e' k' =
      if e' = e ∧ k' = k then some { payload := idRow k, version := 0, born := () }
      else r.driver.visible.get e' k' :=
    fun e' k' => (get_insertRow hinsert e' k').2
  let b : VersionedRow := { entity := e, key := k, row := seeded, observedVersion := none }
  let S : SqliteDriver := { r.driver.write R with held := r.driver.held ++ [b] }
  have hcreate : r.driver.call (.create e k seeded) = (S, .affected 1) := by
    simp only [SqliteDriver.call, hinsert]
    rfl
  have hS : WellFormed S := by
    have hcall := wellFormed_call h (.create e k seeded)
    rwa [hcreate] at hcall
  have hvisible : S.visible = R := visible_write h R
  have hregistered : S.boundRows = r.driver.boundRows := SqliteDriver.write_boundRows _ _
  have hkept : ∀ (i : Nat) a, r.driver.held[i]? = some a → S.held[i]? = some a := by
    intro i a ha
    show (r.driver.held ++ [b])[i]? = some a
    rw [List.getElem?_append_left (List.getElem?_eq_some_iff.mp ha).1, ha]
  by_cases hpersists : persistsSeeded seeded declaresId = true
  · -- The seeded row is persisted without a version.
    have hb : S.held[r.driver.held.length]? = some b := List.getElem?_concat_length
    have hstored : S.visible.get b.entity b.key =
        some { payload := idRow k, version := 0, born := () } := by
      rw [hvisible, hR]
      exact if_pos ⟨rfl, rfl⟩
    have hpersist := call_persist_eq S [] hb hstored fun v hv => by cases hv
    have hstep : r.step (.create e k seeded declaresId) =
        ({ r with
            driver := (S.call (.persist r.driver.held.length [])).1 }, .done) := by
      simp only [Run.step, Run.call, hcreate, if_pos hpersists]
      rw [hpersist]
    rw [Run.next, hstep, hpersist]
    refine ⟨⟨rfl, ?_, ?_, ?_, ?_⟩, trivial⟩
    · exact (SqliteDriver.write_boundRows _ _).trans hregistered
    · intro i a ha
      have hlt := (List.getElem?_eq_some_iff.mp ha).1
      dsimp only
      rw [List.getElem?_set_ne (by omega), hkept i a ha]
    · refine ⟨Row.updated (b.row.assign []) { payload := idRow k, version := 0, born := () },
        ?_, ?_⟩
      · show (SqliteDriver.write S _).visible.get e k = _
        rw [visible_write hS, get_updateRow, if_pos ⟨rfl, rfl⟩, hstored]
        rfl
      · rw [createdVersion, if_pos hpersists]
        rfl
    · intro e' k' hkey
      show (SqliteDriver.write S _).visible.get e' k' = _
      rw [visible_write hS, get_updateRow, if_neg hkey, hvisible, hR, if_neg hkey]
      rfl
  · have hstep : r.step (.create e k seeded declaresId) = ({ r with driver := S }, .affected 1) := by
      simp only [Run.step, Run.call, hcreate, if_neg hpersists]
    rw [Run.next, hstep]
    refine ⟨⟨rfl, hregistered, hkept, ?_, ?_⟩, Nat.zero_lt_one⟩
    · refine ⟨{ payload := idRow k, version := 0, born := () }, ?_, ?_⟩
      · show S.visible.get e k = _
        rw [hvisible, hR]
        exact if_pos ⟨rfl, rfl⟩
      · rw [createdVersion, if_neg hpersists]
    · intro e' k' hkey
      show S.visible.get e' k' = _
      rw [hvisible, hR, if_neg hkey]
      rfl

theorem tracks_create (h : Tracks r) (hanew : Anew r (.create e k seeded declaresId)) :
    Tracks (r.next (.create e k seeded declaresId)) := by
  have hformed := wellFormed_step h.wellFormed (.create e k seeded declaresId)
  cases hrow : r.stored e k with
  | some row =>
    have hcall : r.next (.create e k seeded declaresId) =
        { r with driver := r.driver.write r.driver.visible } := by
      rw [Run.next, step_create_some hrow]
    apply tracks_of_write h hformed (by rw [hcall])
    · rw [hcall]
      exact SqliteDriver.write_boundRows _ _
    · intro e' i b version _ hb _ _ hversion hstored
      rw [hcall, Run.stored, selectRow, visible_write h.wellFormed]
      dsimp only
      rw [SqliteDriver.write_held]
      exact ⟨b, version, hb, rfl, rfl, hversion, hstored⟩
  | none =>
    obtain ⟨hcreated, -⟩ := @created_of_none r h.wellFormed e k seeded declaresId hrow
    apply tracks_of_write h hformed hcreated.bindings hcreated.registered
    intro e' i b version hi hb _ _ hversion hstored
    refine ⟨b, version, hcreated.held i b hb, rfl, rfl, hversion, ?_⟩
    intro row hrow'
    by_cases hkey : e' = e ∧ b.key = k
    · obtain ⟨he, hk⟩ := hkey
      subst he
      have hnew := hanew hrow b ⟨i, hi, hb, hk⟩
      rw [hversion] at hnew
      obtain ⟨row', hstored', hversion'⟩ := hcreated.row
      rw [hk, hstored'] at hrow'
      rw [← Option.some.inj hrow', hversion', Option.some.inj hnew]
    · rw [hcreated.others e' b.key hkey] at hrow'
      exact hstored row hrow'

/-! ### Runs -/

theorem tracks_step {s : Step} (h : Tracks r) (hanew : Anew r s) : Tracks (r.next s) := by
  cases s with
  | read e k => exact tracks_read h e k
  | update e k => exact tracks_update h e k
  | delete e k => exact tracks_delete h e k
  | create e k seeded declaresId => exact tracks_create h hanew
  | set e fields => exact tracks_set h e fields

theorem answer_set (h : Tracks r) {fields : List (String × Value)} (hb : r.Bound e k b)
    (hrow : r.stored e k = some row) :
    (r.step (.set e fields)).2 = .done := by
  obtain ⟨i, hi, hheld, hk⟩ := hb
  obtain ⟨a, version, ha, hae, -, haversion, hastored⟩ := h.bound e i hi
  rw [hheld] at ha
  obtain rfl := Option.some.inj ha
  subst hk
  have hcurrent : ∀ v, b.observedVersion = some v → v = row.version := by
    intro v hv
    rw [haversion] at hv
    rw [← Option.some.inj hv]
    exact (hastored row hrow).symm
  rw [Run.step, hi]
  exact congrArg Prod.snd (call_persist_eq r.driver fields hheld (hae ▸ hrow) hcurrent)

/-- A step is exact if and only if a create that stores a row finds nothing stale. -/
theorem exact_step_iff (h : Tracks r) (s : Step) : Exact r s ↔ Anew r s := by
  constructor
  · intro hexact
    cases s with
    | create e k seeded declaresId =>
      intro hrow b hb
      obtain ⟨hcreated, hwrote⟩ := @created_of_none r h.wellFormed e k seeded declaresId hrow
      obtain ⟨row, hstored, hversion⟩ := hcreated.row
      obtain ⟨i, hi, hheld, hk⟩ := hb
      have hbound : (r.next (.create e k seeded declaresId)).Bound e k b :=
        ⟨i, by rw [hcreated.bindings, hi], hcreated.held i b hheld, hk⟩
      rw [hexact.version hwrote e k ⟨rfl, rfl⟩ b row hbound hstored, hversion]
    | read | update | delete | set => trivial
  · intro hanew
    have hafter := tracks_step h hanew
    constructor
    · rintro e fields k b row rfl hb hrow failure hfailed
      rw [answer_set h hb hrow] at hfailed
      cases hfailed
    · intro _ e k _ b row hb hrow
      exact hafter.version hb hrow

theorem wellFormed_runCalls (calls : List Call) :
    ∀ {S : SqliteDriver}, WellFormed S → WellFormed (runCalls SqliteDriver.call S calls).1 := by
  induction calls with
  | nil => exact fun h => h
  | cons c calls ih => exact fun h => ih (wellFormed_call h c)

theorem tracks_start (T : Lnpl.Lib.Tables String String (Dict × Nat)) (earlier : List Call) :
    Tracks (start T earlier) := by
  have hinit : WellFormed (SqliteDriver.init T) := ⟨fun _ => rfl, fun _ _ _ h => nomatch h⟩
  refine ⟨wellFormed_call (wellFormed_runCalls earlier hinit) .begin, ?_⟩
  intro e i hi
  exact nomatch hi

/-- A run that reads an order, deletes it, creates it again and sets it. -/
def recreated : List Step :=
  [.read "Order" "o-1", .delete "Order" "o-1", .create "Order" "o-1" (idRow "o-1") true]

end Lnpl.Drivers.RowVersions
