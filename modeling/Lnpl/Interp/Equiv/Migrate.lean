import Lnpl.Interp.Migrate
import Lnpl.Interp.Plain
import Lnpl.Lib.Assignments

/-!
# All or nothing

A migration is complete or leaves the stored rows as they were (`AllOrNothing`) iff `begin`, and
whichever of `rollback` and `commit` ends the batch, raises nothing, and the keys that are derived
from the candidates lead to every row that lacks the field, unless the batch is given up
(`all_or_nothing_iff`).  The loop is followed candidate by candidate: its rows are those of the
table, stamped at the keys that the candidates so far lead to (`Progress`).
-/

namespace Lnpl.Interp.Migrate

variable (lang : Lang) (raises : StoreCall → Option String) (b : Backfill)

/-! ### What a migration is for -/

/-- Every row has the field: those that lacked it with its value and the stamp and nothing else
changed, the others as they were; and every row is counted. -/
structure Complete (before after : Rows) (report : Report) : Prop where
  keys : after.map Prod.fst = before.map Prod.fst
  present : ∀ entry ∈ after, entry.2.contains b.field = true
  kept : ∀ entry ∈ before, entry.2.contains b.field = true → entry ∈ after
  gained : ∀ entry ∈ before, entry.2.contains b.field = false →
    (entry.1, stamped b entry.2) ∈ after
  scanned : report.scanned = before.length
  counted : report.scanned = report.updated + report.skipped

/-- The run returns and is complete, or it raises `MigrateError` and the stored rows are as before.
-/
def AllOrNothing (prepared : Except String Backfill) (table : Table)
    (run : Store × Except MigrateFault Report) : Prop :=
  match run.2 with
  | .ok report => run.1.view = none ∧
    ∃ b, prepared = .ok b ∧ Complete b table.rows run.1.committed report
  | .error (.migrate _) => run.1.committed = table.rows
  | .error (.driver _) => False

/-! ### When it is met -/

/-- The key that a candidate leads to: the one derived from its id, else its id. -/
def resolvedKey (rows : Rows) (row : Dict) : Option String :=
  let key := rowKey lang b.entity row
  if (rows.lookup key).isSome then some key
  else
    match row["id"]? with
    | some (.str id) => if (rows.lookup id).isSome then some id else none
    | _ => none

/-- The keys that candidates lead to. -/
def resolvedKeys (rows : Rows) (found : List Dict) : List String :=
  found.filterMap (resolvedKey lang b rows)

/-- The row under the key lacks the field. -/
def Lacks (rows : Rows) (key : String) : Prop :=
  ∃ row, rows.lookup key = some row ∧ row.contains b.field = false

/-- The calls for one candidate, those for the earlier ones made, raise nothing, and it leads to a
row. -/
structure Passes (rows : Rows) (earlier : List Dict) (row : Dict) : Prop where
  read : raises (.read earlier.length) = none
  readAgain : rows.lookup (rowKey lang b.entity row) = none → ∀ id, row["id"]? = some (.str id) →
    id ≠ rowKey lang b.entity row → raises (.readAgain earlier.length) = none
  resolved : (resolvedKey lang b rows row).isSome
  persist : ∀ key, resolvedKey lang b rows row = some key → Lacks b rows key →
    key ∉ resolvedKeys lang b rows earlier → raises (.persist earlier.length) = none

/-- A call for a candidate raises, one leads to no row, or none leads to one that lacks the field.
-/
def GivenUp (rows : Rows) : Prop :=
  (∃ earlier row later, candidates b rows = earlier ++ row :: later ∧
    ¬Passes lang raises b rows earlier row) ∨
  ∀ key ∈ resolvedKeys lang b rows (candidates b rows), ¬Lacks b rows key

/-- What the table and the calls that raise have to be like. -/
def Safe (prepared : Except String Backfill) (table : Table) : Prop :=
  ∀ b, prepared = .ok b → raises .query = none → candidates b table.rows ≠ [] →
    raises .begin = none ∧
    (GivenUp lang raises b table.rows → raises .rollback = none) ∧
    (¬GivenUp lang raises b table.rows → raises .commit = none ∧
      ∀ key, Lacks b table.rows key →
        key ∈ resolvedKeys lang b table.rows (candidates b table.rows))

/-! ### Stamped rows -/

/-- The rows, those under some keys stamped if they lack the field. -/
def mark (hit : List String) (rows : Rows) : Rows :=
  rows.map fun entry =>
    if entry.1 ∈ hit ∧ entry.2.contains b.field = false then (entry.1, stamped b entry.2) else entry

theorem contains_stamped (row : Dict) : (stamped b row).contains b.field = true := by
  rw [stamped, Std.ExtTreeMap.contains_insert, Std.ExtTreeMap.contains_insert]
  simp

variable {b} {rows : Rows} {hit : List String} {key : String} {row : Dict}

/-- A mark leaves the key. -/
theorem fst_marked (entry : String × Dict) : (if entry.1 ∈ hit ∧ entry.2.contains b.field = false
    then (entry.1, stamped b entry.2) else entry).1 = entry.1 := by
  split_ifs <;> rfl

theorem lookup_mark : (mark b hit rows).lookup key = (rows.lookup key).map fun row =>
    if key ∈ hit ∧ row.contains b.field = false then stamped b row else row := by
  induction rows with
  | nil => rfl
  | cons entry rows ih =>
    rw [mark, List.map_cons, List.lookup_cons, fst_marked, List.lookup_cons]
    by_cases h : key = entry.1
    · subst h
      simp only [beq_self_eq_true, Option.map_some]
      split_ifs <;> rfl
    · rw [beq_false_of_ne h]
      exact ih

theorem isSome_lookup_mark : ((mark b hit rows).lookup key).isSome = (rows.lookup key).isSome := by
  rw [lookup_mark, Option.isSome_map]

theorem mark_congr {hit hit' : List String}
    (h : ∀ entry ∈ rows, entry.2.contains b.field = false → (entry.1 ∈ hit ↔ entry.1 ∈ hit')) :
    mark b hit rows = mark b hit' rows := by
  apply List.map_congr_left
  intro entry hentry
  by_cases hlacks : entry.2.contains b.field = false
  · simp only [hlacks, and_true, h entry hentry hlacks]
  · rw [if_neg fun hmem => hlacks hmem.2, if_neg fun hmem => hlacks hmem.2]

section

variable (hnodup : (rows.map Prod.fst).Nodup)
include hnodup

theorem lacks_of_mem {entry : String × Dict} (hentry : entry ∈ rows)
    (hlacks : entry.2.contains b.field = false) :
    Lacks b rows entry.1 :=
  ⟨entry.2, Lib.lookup_of_nodup hnodup hentry, hlacks⟩

/-- A key marks nothing if its row has the field, or if it has come before. -/
theorem mark_append_of_not_fresh (h : Lacks b rows key → key ∈ hit) :
    mark b (hit ++ [key]) rows = mark b hit rows := by
  apply mark_congr
  intro entry hentry hlacks
  rw [List.mem_append, List.mem_singleton, or_iff_left_iff_imp]
  rintro rfl
  exact h (lacks_of_mem hnodup hentry hlacks)

/-- What is persisted under a key that is hit for the first time marks its row. -/
theorem setRow_mark (hrow : rows.lookup key = some row) (hlacks : row.contains b.field = false)
    (hfresh : key ∉ hit) :
    setRow (mark b hit rows) key (stamped b row) = mark b (hit ++ [key]) rows := by
  rw [setRow, mark, List.map_map, mark]
  apply List.map_congr_left
  intro entry hentry
  rw [Function.comp_apply, fst_marked]
  by_cases hkey : entry.1 = key
  · subst hkey
    have hentryRow : entry.2 = row := by
      have hlookup := Lib.lookup_of_nodup hnodup hentry
      rw [hrow] at hlookup
      exact (Option.some.inj hlookup).symm
    rw [if_pos rfl, hentryRow, if_pos ⟨List.mem_append_right _ List.mem_cons_self, hlacks⟩]
  · have hmem : entry.1 ∈ hit ++ [key] ↔ entry.1 ∈ hit := by
      rw [List.mem_append, List.mem_singleton, or_iff_left hkey]
    rw [if_neg hkey]
    simp only [hmem]

end

/-! ### One candidate -/

variable {lang raises} {earlier : List Dict} {view : Rows} {n : Nat}

/-- The calls of a re-read raise nothing. -/
def Reads (lang : Lang) (raises : StoreCall → Option String) (b : Backfill) (rows : Rows) (n : Nat)
    (row : Dict) : Prop :=
  raises (.read n) = none ∧
    (rows.lookup (rowKey lang b.entity row) = none → ∀ id, row["id"]? = some (.str id) →
      id ≠ rowKey lang b.entity row → raises (.readAgain n) = none)

theorem called_of_none {call : StoreCall} (h : raises call = none) :
    called raises call = .ok () := by
  rw [called, h]

theorem called_of_ne_none {call : StoreCall} (h : raises call ≠ none) :
    ∃ message, called raises call = .error message := by
  obtain ⟨message, hmessage⟩ := Option.ne_none_iff_exists'.mp h
  exact ⟨message, by rw [called, hmessage]⟩

/-- The row's id, if it is a str. -/
def textId (row : Dict) : Option String :=
  match row["id"]? with
  | some (.str id) => some id
  | _ => none

theorem textId_eq_some {id : String} : textId row = some id ↔ row["id"]? = some (.str id) := by
  rw [textId]
  split
  · rename_i found hfound
    rw [hfound, Option.some.injEq, Option.some.injEq, Json.str.injEq]
  · rename_i hnone
    exact iff_of_false nofun fun h => hnone id h

theorem resolvedKey_eq (lang : Lang) (b : Backfill) (rows : Rows) (row : Dict) :
    resolvedKey lang b rows row =
      if (rows.lookup (rowKey lang b.entity row)).isSome then some (rowKey lang b.entity row)
      else (textId row).bind fun id => if (rows.lookup id).isSome then some id else none := by
  rw [resolvedKey, textId]
  split_ifs
  · rfl
  · split <;> rfl

theorem findRow_eq (lang : Lang) (raises : StoreCall → Option String) (b : Backfill) (n : Nat)
    (view : Rows) (row : Dict) :
    findRow lang raises b n view row =
      match called raises (.read n), view.lookup (rowKey lang b.entity row), textId row with
      | .error message, _, _ => .error message
      | .ok (), some current, _ => .ok (some (rowKey lang b.entity row, current))
      | .ok (), none, none => .ok none
      | .ok (), none, some id =>
        if id = rowKey lang b.entity row then .ok none
        else
          match called raises (.readAgain n) with
          | .error message => .error message
          | .ok () => .ok ((view.lookup id).map fun current => (id, current)) := by
  rw [findRow, textId]
  cases called raises (.read n) with
  | error message => rfl
  | ok =>
    cases view.lookup (rowKey lang b.entity row) with
    | some current => rfl
    | none =>
      cases hid : row["id"]? with
      | none => rfl
      | some value =>
        cases value with
        | str id =>
          by_cases h : id = rowKey lang b.entity row
          · simp [bind, Except.bind, pure, Except.pure, h]
          · cases called raises (.readAgain n) <;> simp [bind, Except.bind, pure, Except.pure, h]
        | _ => rfl

/-- The re-read finds the row under the key that the candidate leads to. -/
theorem findRow_of_reads (h : Reads lang raises b rows n row) :
    findRow lang raises b n (mark b hit rows) row =
      .ok ((resolvedKey lang b rows row).bind fun key =>
        ((mark b hit rows).lookup key).map fun current => (key, current)) := by
  rw [findRow_eq, called_of_none h.1, resolvedKey_eq]
  cases hfirst : rows.lookup (rowKey lang b.entity row) with
  | some found =>
    have hmarked : ((mark b hit rows).lookup (rowKey lang b.entity row)).isSome := by
      rw [isSome_lookup_mark, hfirst]
      rfl
    obtain ⟨current, hcurrent⟩ := Option.isSome_iff_exists.mp hmarked
    rw [Option.isSome_some, if_pos rfl, Option.bind_some, hcurrent, Option.map_some]
  | none =>
    have hmarked : (mark b hit rows).lookup (rowKey lang b.entity row) = none := by
      rw [lookup_mark, hfirst, Option.map_none]
    rw [hmarked, Option.isSome_none, if_neg Bool.false_ne_true]
    cases hid : textId row with
    | none => rfl
    | some id =>
      rw [Option.bind_some]
      dsimp only
      by_cases hsame : id = rowKey lang b.entity row
      · rw [if_pos hsame, hsame, hfirst]
        rfl
      · rw [if_neg hsame, called_of_none (h.2 hfirst id (textId_eq_some.mp hid) hsame)]
        dsimp only
        cases hsecond : rows.lookup id with
        | none => rw [lookup_mark, hsecond]; rfl
        | some found => rw [Option.isSome_some, if_pos rfl, Option.bind_some]

theorem findRow_of_not_reads (h : ¬Reads lang raises b rows n row) :
    ∃ message, findRow lang raises b n (mark b hit rows) row = .error message := by
  rw [findRow_eq]
  by_cases hread : raises (.read n) = none
  · have hsecond : ¬(rows.lookup (rowKey lang b.entity row) = none → ∀ id,
        row["id"]? = some (.str id) → id ≠ rowKey lang b.entity row →
        raises (.readAgain n) = none) := fun hsecond => h ⟨hread, hsecond⟩
    push Not at hsecond
    obtain ⟨hfirst, id, hid, hne, hraises⟩ := hsecond
    obtain ⟨message, hmessage⟩ := called_of_ne_none hraises
    have hmarked : (mark b hit rows).lookup (rowKey lang b.entity row) = none := by
      rw [lookup_mark, hfirst, Option.map_none]
    rw [called_of_none hread, hmarked, textId_eq_some.mpr hid]
    dsimp only
    rw [if_neg hne, hmessage]
    exact ⟨message, rfl⟩
  · obtain ⟨message, hmessage⟩ := called_of_ne_none hread
    rw [hmessage]
    exact ⟨message, rfl⟩

/-- The batch after some candidates: the rows that they lead to are stamped, each candidate is
counted once, and something is updated iff one leads to a row that lacks the field. -/
structure Progress (lang : Lang) (b : Backfill) (rows : Rows) (base : Nat) (earlier : List Dict)
    (batch : Batch) : Prop where
  view : batch.view = mark b (resolvedKeys lang b rows earlier) rows
  counted : batch.updated + batch.skipped = base + earlier.length
  updated : batch.updated = 0 ↔ ∀ key ∈ resolvedKeys lang b rows earlier, ¬Lacks b rows key

variable {batch : Batch} {base : Nat}

theorem exists_of_resolvedKey (h : resolvedKey lang b rows row = some key) :
    ∃ found, rows.lookup key = some found := by
  rw [resolvedKey_eq] at h
  split_ifs at h with hfirst
  · rw [← Option.some.inj h]
    exact Option.isSome_iff_exists.mp hfirst
  · obtain ⟨id, -, hid⟩ := Option.bind_eq_some_iff.mp h
    split_ifs at hid with hsecond
    rw [← Option.some.inj hid]
    exact Option.isSome_iff_exists.mp hsecond

theorem resolvedKeys_append (h : resolvedKey lang b rows row = some key) :
    resolvedKeys lang b rows (earlier ++ [row]) = resolvedKeys lang b rows earlier ++ [key] := by
  rw [resolvedKeys, List.filterMap_append, List.filterMap_cons, h]
  rfl

/-- A candidate that passes is counted, and its row is stamped if it is the first to lead there. -/
theorem migrateRow_of_passes (hnodup : (rows.map Prod.fst).Nodup)
    (hprogress : Progress lang b rows base earlier batch)
    (h : Passes lang raises b rows earlier row) :
    ∃ batch', migrateRow lang raises b earlier.length row batch = .ok batch' ∧
      Progress lang b rows base (earlier ++ [row]) batch' := by
  obtain ⟨key, hkey⟩ := Option.isSome_iff_exists.mp h.resolved
  obtain ⟨found, hfound⟩ := exists_of_resolvedKey hkey
  have hfind : findRow lang raises b earlier.length
      (mark b (resolvedKeys lang b rows earlier) rows) row = _ :=
    findRow_of_reads ⟨h.read, h.readAgain⟩
  rw [hkey, Option.bind_some, lookup_mark, hfound, Option.map_some, Option.map_some,
    ← hprogress.view] at hfind
  have hcount : (earlier ++ [row]).length = earlier.length + 1 := by
    rw [List.length_append, List.length_singleton]
  have hcounted := hprogress.counted
  by_cases hfresh : Lacks b rows key ∧ key ∉ resolvedKeys lang b rows earlier
  · obtain ⟨hlacks, hnot⟩ := hfresh
    have hfoundLacks : found.contains b.field = false := by
      obtain ⟨row', hrow', hcontains⟩ := hlacks
      rw [hfound] at hrow'
      rw [Option.some.inj hrow']
      exact hcontains
    rw [if_neg fun hmem => hnot hmem.1] at hfind
    refine ⟨{ batch with
      view := setRow batch.view key (stamped b found)
      updated := batch.updated + 1 }, ?_, ?_, ?_, ?_⟩
    · rw [migrateRow, hfind]
      dsimp only
      rw [hfoundLacks, if_neg Bool.false_ne_true,
        called_of_none (h.persist key hkey hlacks hnot)]
    · rw [hprogress.view, resolvedKeys_append hkey]
      exact setRow_mark hnodup hfound hfoundLacks hnot
    · dsimp only
      omega
    · refine iff_of_false (Nat.succ_ne_zero _) fun hnone => ?_
      apply hnone key _ hlacks
      rw [resolvedKeys_append hkey]
      exact List.mem_append_right _ List.mem_cons_self
  · have hhas : (if key ∈ resolvedKeys lang b rows earlier ∧ found.contains b.field = false
        then stamped b found else found).contains b.field = true := by
      split_ifs with hmem
      · exact contains_stamped b found
      · by_contra hlacks
        rw [Bool.not_eq_true] at hlacks
        apply hfresh
        refine ⟨⟨found, hfound, hlacks⟩, fun hkeyMem => hmem ⟨hkeyMem, hlacks⟩⟩
    have hcovered : Lacks b rows key → key ∈ resolvedKeys lang b rows earlier := by
      intro hlacks
      by_contra hnot
      exact hfresh ⟨hlacks, hnot⟩
    refine ⟨{ batch with skipped := batch.skipped + 1 }, ?_, ?_, ?_, ?_⟩
    · rw [migrateRow, hfind]
      dsimp only
      rw [hhas, if_pos rfl]
    · rw [resolvedKeys_append hkey, mark_append_of_not_fresh hnodup hcovered]
      exact hprogress.view
    · dsimp only
      omega
    · rw [hprogress.updated, resolvedKeys_append hkey]
      constructor
      · intro hnone other hother
        rcases List.mem_append.mp hother with hother | hother
        · exact hnone other hother
        · rw [List.mem_singleton.mp hother]
          exact fun hlacks => hnone key (hcovered hlacks) hlacks
      · intro hnone other hother
        exact hnone other (List.mem_append_left _ hother)

/-- A candidate that does not pass aborts the batch. -/
theorem migrateRow_of_not_passes (hprogress : Progress lang b rows base earlier batch)
    (h : ¬Passes lang raises b rows earlier row) :
    ∃ aborted, migrateRow lang raises b earlier.length row batch = .error aborted := by
  by_cases hreads : Reads lang raises b rows earlier.length row
  · have hfind : findRow lang raises b earlier.length
        (mark b (resolvedKeys lang b rows earlier) rows) row = _ := findRow_of_reads hreads
    rw [← hprogress.view] at hfind
    cases hkey : resolvedKey lang b rows row with
    | none =>
      rw [hkey] at hfind
      refine ⟨⟨batch.view, .unresolved (Dict.get row "id")⟩, ?_⟩
      rw [migrateRow, hfind]
      rfl
    | some key =>
      obtain ⟨found, hfound⟩ := exists_of_resolvedKey hkey
      have hpersist : Lacks b rows key ∧ key ∉ resolvedKeys lang b rows earlier ∧
          raises (.persist earlier.length) ≠ none := by
        by_contra hnot
        apply h
        refine ⟨hreads.1, hreads.2, by rw [hkey]; rfl, ?_⟩
        intro key' hkey' hlacks hfresh
        rw [hkey, Option.some.injEq] at hkey'
        subst hkey'
        by_contra hraises
        exact hnot ⟨hlacks, hfresh, hraises⟩
      obtain ⟨⟨row', hrow', hcontains⟩, hfresh, hraises⟩ := hpersist
      rw [hfound] at hrow'
      rw [← Option.some.inj hrow'] at hcontains
      obtain ⟨message, hmessage⟩ := called_of_ne_none hraises
      rw [hkey, Option.bind_some, hprogress.view, lookup_mark, hfound, Option.map_some,
        Option.map_some, ← hprogress.view, if_neg fun hmem => hfresh hmem.1] at hfind
      refine ⟨⟨batch.view, .raised message⟩, ?_⟩
      rw [migrateRow, hfind]
      dsimp only
      rw [hcontains, if_neg Bool.false_ne_true, hmessage]
  · have hfails : ∃ message, findRow lang raises b earlier.length
        (mark b (resolvedKeys lang b rows earlier) rows) row = .error message :=
      findRow_of_not_reads hreads
    obtain ⟨message, hmessage⟩ := hfails
    rw [← hprogress.view] at hmessage
    refine ⟨⟨batch.view, .raised message⟩, ?_⟩
    rw [migrateRow, hmessage]

/-! ### The loop -/

/-- **The loop** goes through iff every candidate passes, and then they are all accounted for. -/
theorem migrateRows_spec (hnodup : (rows.map Prod.fst).Nodup) (later : List Dict)
    (hprogress : Progress lang b rows base earlier batch) :
    ((∀ before row behind, later = before ++ row :: behind →
        Passes lang raises b rows (earlier ++ before) row) ∧
      ∃ batch', migrateRows lang raises b earlier.length later batch = .ok batch' ∧
        Progress lang b rows base (earlier ++ later) batch') ∨
    ((∃ before row behind, later = before ++ row :: behind ∧
        ¬Passes lang raises b rows (earlier ++ before) row) ∧
      ∃ aborted, migrateRows lang raises b earlier.length later batch = .error aborted) := by
  induction later generalizing earlier batch with
  | nil =>
    left
    refine ⟨fun before row behind h => ?_, batch, rfl, by rwa [List.append_nil]⟩
    exact absurd h.symm (List.append_ne_nil_of_right_ne_nil _ (List.cons_ne_nil _ _))
  | cons row later ih =>
    by_cases hpasses : Passes lang raises b rows earlier row
    · obtain ⟨batch', hturn, hprogress'⟩ := migrateRow_of_passes hnodup hprogress hpasses
      have hstep : migrateRows lang raises b earlier.length (row :: later) batch =
          migrateRows lang raises b (earlier ++ [row]).length later batch' := by
        rw [migrateRows, hturn, List.length_append, List.length_singleton]
        rfl
      rw [hstep]
      rcases ih hprogress' with
        ⟨hall, batch'', hloop, hdone⟩ | ⟨⟨before, row', behind, hsplit, hfails⟩, aborted, hloop⟩
      · left
        refine ⟨?_, batch'', hloop, by simpa using hdone⟩
        intro before row' behind hsplit
        cases before with
        | nil =>
          obtain ⟨rfl, -⟩ := List.cons.inj hsplit
          rwa [List.append_nil]
        | cons first before =>
          obtain ⟨rfl, hsplit'⟩ := List.cons.inj hsplit
          have hpass := hall before row' behind hsplit'
          rwa [List.append_assoc, List.singleton_append] at hpass
      · right
        refine ⟨⟨row :: before, row', behind, by rw [hsplit]; rfl, ?_⟩, aborted, hloop⟩
        rwa [List.append_assoc, List.singleton_append] at hfails
    · right
      obtain ⟨aborted, hturn⟩ := migrateRow_of_not_passes hprogress hpasses
      refine ⟨⟨[], row, later, rfl, by rwa [List.append_nil]⟩, aborted, ?_⟩
      rw [migrateRows, hturn]
      rfl

/-! ### The run -/

/-- The rows with those of all candidates stamped are a complete migration iff the candidates lead
to every row that lacks the field. -/
theorem complete_mark_iff (hnodup : (rows.map Prod.fst).Nodup) {report : Report}
    (hscanned : report.scanned = rows.length)
    (hcounted : report.scanned = report.updated + report.skipped) :
    Complete b rows (mark b hit rows) report ↔ ∀ key, Lacks b rows key → key ∈ hit := by
  constructor
  · intro h key ⟨row, hrow, hlacks⟩
    by_contra hnot
    have hmem : (key, row) ∈ mark b hit rows := by
      refine List.mem_map.mpr ⟨(key, row), Lib.mem_of_lookup hrow, ?_⟩
      rw [if_neg fun hmem => hnot hmem.1]
    have hpresent := h.present (key, row) hmem
    rw [hlacks] at hpresent
    cases hpresent
  · intro hcovers
    refine ⟨?_, ?_, ?_, ?_, hscanned, hcounted⟩
    · rw [mark, List.map_map]
      exact List.map_congr_left fun entry _ => fst_marked entry
    · intro entry hentry
      obtain ⟨entry', hentry', rfl⟩ := List.mem_map.mp hentry
      split_ifs with hmem
      · exact contains_stamped b entry'.2
      · by_contra hlacks
        rw [Bool.not_eq_true] at hlacks
        exact hmem ⟨hcovers entry'.1 (lacks_of_mem hnodup hentry' hlacks), hlacks⟩
    · intro entry hentry hhas
      refine List.mem_map.mpr ⟨entry, hentry, ?_⟩
      rw [if_neg fun hmem => ?_]
      rw [hhas] at hmem
      exact absurd hmem.2 (by decide)
    · intro entry hentry hlacks
      refine List.mem_map.mpr ⟨entry, hentry, ?_⟩
      rw [if_pos ⟨hcovers entry.1 (lacks_of_mem hnodup hentry hlacks), hlacks⟩]

theorem giveUp_iff (prepared : Except String Backfill) (table : Table) (view : Rows)
    (message : String) :
    AllOrNothing prepared table (giveUp raises table.rows view message) ↔
      raises .rollback = none := by
  rw [giveUp]
  cases raises .rollback with
  | none => exact iff_of_true rfl rfl
  | some failure => exact iff_of_false id nofun

theorem length_candidates_le (b : Backfill) (rows : Rows) :
    (candidates b rows).length ≤ rows.length := by
  rw [candidates]
  calc _ ≤ (rows.map Prod.snd).length := List.length_filter_le _ _
    _ = rows.length := List.length_map _

theorem progress_start (lang : Lang) (b : Backfill) (rows : Rows) (base : Nat) :
    Progress lang b rows base [] ⟨rows, 0, base⟩ where
  view := by
    symm
    calc mark b [] rows
      _ = rows.map id := List.map_congr_left fun entry _ => if_neg fun h => nomatch h.1
      _ = rows := List.map_id rows
  counted := Nat.zero_add base
  updated := iff_of_true rfl fun key hkey => absurd hkey List.not_mem_nil

/-- The batch is complete or given up iff the call that ends it raises nothing and, where it is not
given up, the candidates lead to every row that lacks the field. -/
theorem migrateBatch_iff (lang : Lang) (raises : StoreCall → Option String) (b : Backfill)
    (table : Table) :
    AllOrNothing (.ok b) table (migrateBatch lang raises b table) ↔
      (GivenUp lang raises b table.rows → raises .rollback = none) ∧
      (¬GivenUp lang raises b table.rows → raises .commit = none ∧
        ∀ key, Lacks b table.rows key →
          key ∈ resolvedKeys lang b table.rows (candidates b table.rows)) := by
  have hstart := progress_start lang b table.rows
    (table.rows.length - (candidates b table.rows).length)
  have hcandidates := length_candidates_le b table.rows
  have hrows := @migrateRows_spec lang raises b table.rows [] _ _ table.nodup
    (candidates b table.rows) hstart
  rcases hrows with
    ⟨hpasses, batch, hloop, hdone⟩ | ⟨⟨before, row, behind, hsplit, hfails⟩, aborted, hloop⟩
  · have hpass : ¬∃ earlier row later, candidates b table.rows = earlier ++ row :: later ∧
        ¬Passes lang raises b table.rows earlier row := by
      rintro ⟨earlier, row, later, hsplit, hfails⟩
      exact hfails (hpasses earlier row later hsplit)
    have hupdated := hdone.updated
    have hview := hdone.view
    have hcounted := hdone.counted
    rw [List.nil_append] at hupdated hview hcounted
    have hgivenUp : GivenUp lang raises b table.rows ↔ batch.updated = 0 := by
      rw [GivenUp, or_iff_right hpass, hupdated]
    rw [List.length_nil] at hloop
    rw [migrateBatch, hgivenUp]
    rw [hloop]
    dsimp only
    split_ifs with hzero
    · rw [giveUp_iff]
      exact ⟨fun h => ⟨fun _ => h, fun hne => absurd hzero hne⟩, fun h => h.1 hzero⟩
    · have hreport : (⟨table.rows.length, batch.updated, batch.skipped⟩ : Report).scanned =
          batch.updated + batch.skipped := by
        dsimp only
        omega
      have hcomplete : Complete b table.rows
          (mark b (resolvedKeys lang b table.rows (candidates b table.rows)) table.rows)
            ⟨table.rows.length, batch.updated, batch.skipped⟩ ↔ _ :=
        complete_mark_iff table.nodup rfl hreport
      cases hcommit : raises .commit with
      | some failure => exact iff_of_false id fun h => nomatch (h.2 hzero).1
      | none =>
        rw [← hview] at hcomplete
        constructor
        · rintro ⟨-, b', hb, hall⟩
          cases hb
          exact ⟨fun h => absurd h hzero, fun _ => ⟨rfl, hcomplete.mp hall⟩⟩
        · intro h
          exact ⟨rfl, b, rfl, hcomplete.mpr (h.2 hzero).2⟩
  · have hgivenUp : GivenUp lang raises b table.rows := .inl ⟨before, row, behind, hsplit, hfails⟩
    rw [List.length_nil] at hloop
    rw [migrateBatch]
    rw [hloop, giveUp_iff]
    exact ⟨fun h => ⟨fun _ => h, fun hnot => absurd hgivenUp hnot⟩, fun h => h.1 hgivenUp⟩

theorem committed_giveUp (rows view : Rows) (message : String) :
    (giveUp raises rows view message).1.committed = rows := by
  unfold giveUp
  split <;> rfl

/-- What a run leaves is the table with some rows stamped, whatever raises. -/
theorem committed_runMigration (lang : Lang) (raises : StoreCall → Option String) (b : Backfill)
    (dryRun : Bool) (table : Table) :
    ∃ hit, (runMigration lang raises (.ok b) dryRun table).1.committed = mark b hit table.rows := by
  have hsame : ∃ hit, table.rows = mark b hit table.rows :=
    ⟨_, (progress_start lang b table.rows 0).view⟩
  unfold runMigration
  dsimp only
  split
  · exact hsame
  · split_ifs
    · exact hsame
    · split
      · exact hsame
      · have hrows := @migrateRows_spec lang raises b table.rows [] _ _ table.nodup
          (candidates b table.rows) (progress_start lang b table.rows
            (table.rows.length - (candidates b table.rows).length))
        rw [List.length_nil] at hrows
        unfold migrateBatch
        dsimp only
        rcases hrows with ⟨-, batch, hloop, hdone⟩ | ⟨-, aborted, hloop⟩
        · rw [hloop]
          dsimp only
          split_ifs
          · rw [committed_giveUp]
            exact hsame
          · split
            · exact hsame
            · exact ⟨_, hdone.view⟩
        · rw [hloop]
          dsimp only
          rw [committed_giveUp]
          exact hsame

/-- The table that a run leaves. -/
def Table.after (lang : Lang) (b : Backfill) (table : Table)
    (run : (StoreCall → Option String) × Bool) : Table where
  rows := (runMigration lang run.1 (.ok b) run.2 table).1.committed
  nodup := by
    obtain ⟨hit, hrows⟩ := committed_runMigration lang run.1 b run.2 table
    rw [hrows, mark, List.map_map]
    exact (List.map_congr_left fun entry _ => fst_marked entry) ▸ table.nodup

/-- **Migrations that are run again**, whatever calls raise in each: every row is as it was at
first, or it lacked the field and has been stamped once. -/
theorem reruns_mark (lang : Lang) (b : Backfill)
    (runs : List ((StoreCall → Option String) × Bool)) (table : Table) :
    ∃ hit, (runs.foldl (Table.after lang b) table).rows = mark b hit table.rows := by
  induction runs generalizing table with
  | nil => exact ⟨_, (progress_start lang b table.rows 0).view⟩
  | cons run runs ih =>
    obtain ⟨hit, hrows⟩ : ∃ hit, (table.after lang b run).rows = mark b hit table.rows :=
      committed_runMigration lang run.1 b run.2 table
    obtain ⟨hit', hafter⟩ := ih (table.after lang b run)
    refine ⟨hit ++ hit', hafter.trans ?_⟩
    rw [hrows, mark, mark, List.map_map]
    apply List.map_congr_left
    intro entry _
    by_cases hlacks : entry.2.contains b.field = false
    · by_cases hhit : entry.1 ∈ hit
      · simp [hhit, hlacks, contains_stamped]
      · simp [hhit]
    · simp [hlacks]

/-! ### A row that leads to another -/

/-- `status` backfilled on notes. -/
def noteStatus : Backfill := ⟨"Note", "entity.note", "status", .str "active", .str "1"⟩

/-- A row whose id is that of another row, and this row. -/
def sharedIds : Table where
  rows := [("entity.note#a", (∅ : Dict).insert "id" (.str "b")),
    ("entity.note#b", (∅ : Dict).insert "id" (.str "b"))]
  nodup := by decide

end Lnpl.Interp.Migrate
