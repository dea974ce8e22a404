import Mathlib.Data.Prod.Lex
import Mathlib.Data.String.Basic
import Lnpl.Front.Equiv.Lexer
import Lnpl.Lib.Keyset
import Lnpl.Lib.Results
import Lnpl.Serve.Pagination

/-!
# Correctness of the list pages

On sort values of one kind, `_sort_key` orders rows as a linear order does (`gtItems_sortKey`), and
what a client sees that follows `next` is keyset pagination in that order (`follow_eq`).
-/

namespace Lnpl.Serve.Pagination

open Lnpl.Lib
open Lnpl.Lib.Py

/-- The types whose values Python can order. -/
inductive Kind where
  | number
  | text

/-- A value of the kind, or `None`. -/
def Kind.Of : Kind → Value → Prop
  | _, .none => True
  | number, value => value.number?.isSome
  | text, value => value.str?.isSome

/-- The order of sort keys: absent values last, then by value, then by key. -/
abbrev Rank := Bool ×ₗ ((Rat ×ₗ String) ×ₗ String)

/-- The place of a value among those of its kind. -/
def scalar (value : Value) : Rat ×ₗ String :=
  toLex (value.number?.getD 0, value.str?.getD "")

/-- The place of a sort key. -/
def rank (value : Value) (key : String) : Rank :=
  match value with
  | .none => toLex (true, toLex (toLex (0, ""), key))
  | value => toLex (false, toLex (scalar value, key))

/-! ### The order of sort keys -/

variable {value a b : Value} {x : Rat} {field entity : String} {row : Row} {rows : List Row}
  {limit : Nat} {tables : List (List Row)} {quote : String → String}

theorem key?_of_number (h : value.number? = some x) : value.key? = some (.num x) := by
  cases value with
  | bool b =>
    obtain rfl := Option.some.inj h
    rfl
  | int n =>
    obtain rfl := Option.some.inj h
    rfl
  | float v t =>
    obtain rfl := Option.some.inj h
    rfl
  | none | str | list | dict => cases h

variable {y : Rat} {n : Int} {reader : Reader} {after : Option (Value × Value)} {rest : List Row}

theorem eq_of_numbers (ha : a.number? = some x) (hb : b.number? = some y) :
    a.eq b = decide (x = y) := by
  have heq : a.eq b = (a.key?.isSome && a.key? == b.key?) := by
    cases a with
    | list items => cases ha
    | dict fields => cases ha
    | none | str | bool | int | float => rw [Value.eq] <;> exact fun _ _ h => nomatch h
  rw [heq, key?_of_number ha, key?_of_number hb, Option.isSome_some, Bool.true_and]
  rw [Bool.eq_iff_iff, beq_iff_eq, decide_eq_true_iff, Option.some_inj, Key.num.injEq]

theorem gt_of_numbers (ha : a.number? = some x) (hb : b.number? = some y) :
    a.gt b = .ok (decide (y < x)) := by
  cases a with
  | list | str | none | dict => cases ha
  | bool | int | float =>
    unfold Value.gt
    simp only [ha, hb]

theorem eq_str (s s' : String) : (Value.str s).eq (.str s') = decide (s = s') := by
  rw [Value.eq]
  · rw [Bool.eq_iff_iff, Bool.and_eq_true, beq_iff_eq, decide_eq_true_iff]
    simp [Value.key?]
  · intro _ _ h
    cases h
  · intro _ _ h
    cases h

theorem gtItems_str (s s' : String) : gtItems [.str s] [.str s'] = .ok (decide (s' < s)) := by
  rw [gtItems, eq_str]
  by_cases h : s = s'
  · rw [decide_eq_true h, if_pos rfl, gtItems, h, decide_eq_false (lt_irrefl s')]
  · rw [decide_eq_false h, if_neg Bool.false_ne_true, Value.gt]

theorem number_of (h : Kind.number.Of value) (hne : value ≠ .none) : value.number?.isSome := by
  cases value with
  | none => exact absurd rfl hne
  | bool | int | float | str | list | dict => exact h

theorem text_of (h : Kind.text.Of value) (hne : value ≠ .none) : ∃ s, value = .str s := by
  cases value with
  | none => exact absurd rfl hne
  | str s => exact ⟨s, rfl⟩
  | bool | int | float | list | dict => cases h

theorem scalar_of_number (h : value.number? = some x) : scalar value = toLex (x, "") := by
  cases value with
  | bool | int | float =>
    rw [scalar, h]
    rfl
  | none | str | list | dict => cases h

/-- Of two present values of a kind, the place decides, and the key among equal ones. -/
theorem gtItems_present {kind : Kind} (s s' : String) (ha : kind.Of a) (hb : kind.Of b)
    (hna : a ≠ .none) (hnb : b ≠ .none) :
    gtItems [a, .str s] [b, .str s'] =
      .ok (decide (toLex (scalar b, s') < toLex (scalar a, s))) := by
  have hcase : a.eq b = decide (scalar a = scalar b) ∧
      a.gt b = .ok (decide (scalar b < scalar a)) := by
    cases kind with
    | number =>
      obtain ⟨x, hx⟩ := Option.isSome_iff_exists.mp (number_of ha hna)
      obtain ⟨y, hy⟩ := Option.isSome_iff_exists.mp (number_of hb hnb)
      rw [eq_of_numbers hx hy, gt_of_numbers hx hy, scalar_of_number hx, scalar_of_number hy]
      simp [Prod.Lex.toLex_lt_toLex]
    | text =>
      obtain ⟨t, rfl⟩ := text_of ha hna
      obtain ⟨t', rfl⟩ := text_of hb hnb
      rw [eq_str, Value.gt]
      simp [scalar, Value.number?, Value.str?, Prod.Lex.toLex_lt_toLex]
  rw [gtItems, hcase.1, hcase.2]
  by_cases h : scalar a = scalar b
  · rw [decide_eq_true h, if_pos rfl, gtItems_str, h, Except.ok.injEq, decide_eq_decide,
      Prod.Lex.toLex_lt_toLex]
    simp
  · rw [decide_eq_false h, if_neg Bool.false_ne_true, Except.ok.injEq, decide_eq_decide,
      Prod.Lex.toLex_lt_toLex]
    simp [Ne.symm h]

theorem sortKey_of_ne (h : value ≠ .none) (key : Value) :
    sortKey value key = [.int 0, value, key] := by
  cases value with
  | none => exact absurd rfl h
  | bool | int | float | str | list | dict => rfl

theorem rank_of_ne (h : value ≠ .none) (key : String) :
    rank value key = toLex (false, toLex (scalar value, key)) := by
  cases value with
  | none => exact absurd rfl h
  | bool | int | float | str | list | dict => rfl

theorem gtItems_int (items items' : List Value) :
    gtItems (.int n :: items) (.int n :: items') = gtItems items items' := by
  have heq : (Value.int n).eq (.int n) = true := by
    rw [eq_of_numbers rfl rfl]
    exact decide_eq_true rfl
  rw [gtItems, heq, if_pos rfl]

theorem gtItems_int_of_ne {m : Int} (h : m ≠ n) (items items' : List Value) :
    gtItems (.int m :: items) (.int n :: items') = .ok (decide (n < m)) := by
  have heq : (Value.int m).eq (.int n) = false := by
    rw [eq_of_numbers rfl rfl]
    exact decide_eq_false (by exact_mod_cast h)
  rw [gtItems, heq, if_neg Bool.false_ne_true, gt_of_numbers rfl rfl, Except.ok.injEq,
    decide_eq_decide]
  exact_mod_cast Iff.rfl

/-- **The order of rows**: on values of one kind, sort keys are compared as their ranks. -/
theorem gtItems_sortKey {kind : Kind} {s s' : String} (ha : kind.Of a) (hb : kind.Of b) :
    gtItems (sortKey a (.str s)) (sortKey b (.str s')) =
      .ok (decide (rank b s' < rank a s)) := by
  by_cases hna : a = .none
  · by_cases hnb : b = .none
    · rw [hna, hnb, sortKey, sortKey, gtItems_int, gtItems_str, rank, rank, Except.ok.injEq,
        decide_eq_decide, Prod.Lex.toLex_lt_toLex, Prod.Lex.toLex_lt_toLex]
      simp
    · rw [hna, sortKey_of_ne hnb, sortKey, gtItems_int_of_ne (by decide), rank, rank_of_ne hnb,
        Except.ok.injEq, decide_eq_decide, Prod.Lex.toLex_lt_toLex]
      simp
  · by_cases hnb : b = .none
    · rw [hnb, sortKey_of_ne hna, sortKey, gtItems_int_of_ne (by decide), rank, rank_of_ne hna,
        Except.ok.injEq, decide_eq_decide, Prod.Lex.toLex_lt_toLex]
      simp
    · rw [sortKey_of_ne hna, sortKey_of_ne hnb, gtItems_int, gtItems_present s s' ha hb hna hnb,
        rank_of_ne hna, rank_of_ne hnb, Except.ok.injEq, decide_eq_decide,
        Prod.Lex.toLex_lt_toLex (x := (false, toLex (scalar b, s')))]
      simp

/-! ### What the store answers -/

/-- A table as the law has it: each row under a key of its own, and the values of the sort field of
one kind, and such that JSON can hold them. -/
structure Server.Sortable (S : Server) (kind : Kind) (table : List Row) : Prop where
  nodup : (table.map Row.key).Nodup
  kind : ∀ row ∈ table, kind.Of (Py.field row.payload S.field)
  json : ∀ row ∈ table, (Py.field row.payload S.field).Json S.reader

/-- The rows as a request lists them. -/
def Server.listing (S : Server) (table : List Row) : List Row :=
  match S.store.querySorted S.field table with
  | .ok rows => rows.map stripSchemaGen
  | .error _ => []

/-- The place of a row, by the key that is computed from its payload. -/
def Server.rowRank (S : Server) (row : Row) : Rank :=
  rank (Py.field row.payload S.field) (rowKey S.py.repr S.entity row.payload)

theorem ne_none_of_isMissing (h : isMissing field row = false) :
    Py.field row.payload field ≠ .none := by
  intro hnone
  rw [isMissing, hnone] at h
  cases h

/-- The comparison of present rows. -/
def presentCmp (field : String) : Row → Row → Ordering :=
  compareOn fun row => toLex (scalar (Py.field row.payload field), row.key)

instance (field : String) : Std.TransCmp (presentCmp field) :=
  inferInstanceAs (Std.TransCmp (compareOn _))

/-- The rows in order of the keys they are stored under. -/
def items (table : List Row) : List Row := table.mergeSort fun a b => a.key ≤ b.key

theorem perm_items (table : List Row) : (items table).Perm table := List.mergeSort_perm table _

/-- Present values of one kind are sorted. -/
theorem sortBy_present {kind : Kind} {table : List Row}
    (h : ∀ row ∈ table, kind.Of (Py.field row.payload field)) :
    ∃ sorted, sortBy (tupleLt field) ((items table).filter fun row => !isMissing field row) =
        .ok sorted ∧
      sorted.Perm ((items table).filter fun row => !isMissing field row) ∧
      sorted.Pairwise (Before (presentCmp field) fun _ _ => True) := by
  refine sortBy_ok (fun a ha b hb => ?_) (List.pairwise_of_forall fun _ _ => trivial)
  obtain ⟨hamem, hapresent⟩ := List.mem_filter.mp ha
  obtain ⟨hbmem, hbpresent⟩ := List.mem_filter.mp hb
  rw [Bool.not_eq_true'] at hapresent hbpresent
  have hgt := gtItems_present b.key a.key
    (h b ((perm_items table).mem_iff.mp hbmem)) (h a ((perm_items table).mem_iff.mp hamem))
    (ne_none_of_isMissing hbpresent) (ne_none_of_isMissing hapresent)
  rw [Answers, tupleLt, hgt, Except.ok.injEq, decide_eq_decide, presentCmp, compareOn,
    compare_lt_iff_lt]

/-- `FakeRepository` sorts values of one kind. -/
theorem fakeSorted_ok {kind : Kind} {table : List Row}
    (h : ∀ row ∈ table, kind.Of (Py.field row.payload field)) :
    ∃ rows, fakeSorted field table = .ok rows ∧ rows.Perm table := by
  obtain ⟨sorted, hsorted, hperm, -⟩ := sortBy_present h
  refine ⟨sorted ++ (items table).filter (fun row => isMissing field row), ?_, ?_⟩
  · unfold items at hsorted ⊢
    rw [fakeSorted, hsorted]
    rfl
  · refine List.Perm.trans (hperm.append_right _) (List.Perm.trans ?_ (perm_items table))
    exact List.perm_append_comm.trans (List.filter_append_perm (fun row => isMissing field row) _)

theorem querySorted_ok {kind : Kind} {table : List Row} (store : Store)
    (h : ∀ row ∈ table, kind.Of (Py.field row.payload field)) :
    ∃ rows, store.querySorted field table = .ok rows ∧ rows.Perm table := by
  cases store with
  | fake => exact fakeSorted_ok h
  | sqlite db => exact ⟨_, rfl, List.mergeSort_perm _ _⟩

/-! ### The rows of a listing -/

variable {S : Server} {kind : Kind} {table : List Row}

/-- A table of the law is listed, each row once. -/
theorem Server.Sortable.listing_eq (h : S.Sortable kind table) :
    ∃ rows, S.store.querySorted S.field table = .ok rows ∧ rows.Perm table ∧
      S.listing table = rows.map stripSchemaGen := by
  obtain ⟨rows, hrows, hperm⟩ := querySorted_ok S.store h.kind
  refine ⟨rows, hrows, hperm, ?_⟩
  rw [Server.listing, hrows]

/-- A field of a row without its stamp. -/
theorem field_stripSchemaGen (row : Row) (name : String) :
    Py.field (stripSchemaGen row).payload name = Py.field row.payload name ∨
      Py.field (stripSchemaGen row).payload name = .none := by
  show Py.field (row.payload.filter fun item => item.1 ≠ "_schema_gen") name = _ ∨
    Py.field (row.payload.filter fun item => item.1 ≠ "_schema_gen") name = _
  induction row.payload with
  | nil => exact Or.inl rfl
  | cons item items ih =>
    by_cases hitem : item.1 = "_schema_gen"
    · rw [List.filter_cons_of_neg (by simpa using hitem)]
      by_cases hname : name = item.1
      · right
        rw [Py.field, field?, List.lookup_eq_none_iff.mpr]
        · rfl
        · intro other hother
          rw [bne_iff_ne, hname, hitem]
          exact fun heq => by simpa [heq] using (List.mem_filter.mp hother).2
      · have hskip : Py.field (item :: items) name = Py.field items name := by
          rw [Py.field, Py.field, field?, field?, List.lookup_cons, beq_eq_false_iff_ne.mpr hname]
        rw [hskip]
        exact ih
    · rw [List.filter_cons_of_pos (by simpa using hitem)]
      by_cases hname : name = item.1
      · left
        rw [Py.field, Py.field, field?, field?, List.lookup_cons, List.lookup_cons,
          beq_iff_eq.mpr hname]
      · have hskip : ∀ items : Fields, Py.field (item :: items) name = Py.field items name := by
          intro items
          rw [Py.field, Py.field, field?, field?, List.lookup_cons, beq_eq_false_iff_ne.mpr hname]
        rw [hskip, hskip]
        exact ih

theorem json_stripSchemaGen {name : String} (h : (Py.field row.payload name).Json reader) :
    (Py.field (stripSchemaGen row).payload name).Json reader := by
  rcases field_stripSchemaGen row name with heq | heq
  · rw [heq]
    exact h
  · rw [heq]
    unfold Value.Json
    trivial

section

variable (h : S.Sortable kind table)
include h

section

variable (hrow : row ∈ S.listing table)
include hrow

/-- A row of a listing is one of the table, without its stamp. -/
theorem Server.Sortable.mem_listing : ∃ stored ∈ table, row = stripSchemaGen stored := by
  obtain ⟨rows, -, hperm, hlisting⟩ := h.listing_eq
  rw [hlisting] at hrow
  obtain ⟨stored, hstored, rfl⟩ := List.mem_map.mp hrow
  exact ⟨stored, hperm.mem_iff.mp hstored, rfl⟩

theorem Server.Sortable.kind_of_mem : kind.Of (Py.field row.payload S.field) := by
  obtain ⟨stored, hstored, rfl⟩ := h.mem_listing hrow
  rcases field_stripSchemaGen stored S.field with heq | heq
  · rw [heq]
    exact h.kind stored hstored
  · rw [heq]
    cases kind <;> trivial

theorem Server.Sortable.json_of_mem : (Py.field row.payload S.field).Json S.reader := by
  obtain ⟨stored, hstored, rfl⟩ := h.mem_listing hrow
  exact json_stripSchemaGen (h.json stored hstored)

end

/-- The rows of a listing are under different keys. -/
theorem Server.Sortable.nodup_listing : ((S.listing table).map Row.key).Nodup := by
  obtain ⟨rows, -, hperm, hlisting⟩ := h.listing_eq
  have hkeys : (rows.map stripSchemaGen).map Row.key = rows.map Row.key := by
    rw [List.map_map]
    rfl
  rw [hlisting, hkeys]
  exact (hperm.map Row.key).nodup_iff.mpr h.nodup

end

/-! ### Cursors -/

/-- **Cursors**: what the server encodes, it decodes. -/
theorem decodeCursor_encodeCursor (h : value.Json reader) (key : String) :
    decodeCursor reader (encodeCursor value (.str key)) = .ok (value, .str key) := by
  have hjson : (Value.dict [("v", value), ("k", .str key)]).Json reader := by
    simp [Value.Json, JsonFields, h]
  have hascii : (encodeCursor value (.str key)).any (fun ch => 128 ≤ ch.toNat) = false := by
    rw [List.any_eq_false]
    intro ch hch
    have := Base64.ascii_of_mem_strip hch
    simpa using this
  rw [decodeCursor, hascii, if_neg Bool.false_ne_true, encodeCursor, Base64.decode_pad_strip]
  dsimp only
  rw [loads_write hjson]
  rfl

/-- A cursor as the server decodes it: the sort value, and the key. -/
abbrev Cursor := Value × String

def Cursor.token (cursor : Cursor) : List Char := encodeCursor cursor.1 (.str cursor.2)

def Cursor.rank (cursor : Cursor) : Rank := Pagination.rank cursor.1 cursor.2

/-- The cursor that a page ends with. -/
def Server.cursor (S : Server) (row : Row) : Cursor :=
  (Py.field row.payload S.field, rowKey S.py.repr S.entity row.payload)

theorem rank_cursor (row : Row) : (S.cursor row).rank = S.rowRank row := rfl

/-! ### One request -/

theorem rowsAfter_eq {cursor : Cursor} (hcursor : kind.Of cursor.1)
    (hrows : ∀ row ∈ rows, kind.Of (Py.field row.payload S.field)) :
    rowsAfter S.py.repr S.entity S.field (sortKey cursor.1 (.str cursor.2)) rows =
      .ok (Keyset.rest S.rowRank (some cursor.rank) rows) := by
  induction rows with
  | nil => rfl
  | cons row rows ih =>
    have hrow := hrows row List.mem_cons_self
    have ih := ih fun other hother => hrows other (List.mem_cons_of_mem row hother)
    rw [rowsAfter, gtItems_sortKey hrow hcursor, ih, Keyset.rest, Keyset.rest, List.filter_cons]
    rfl

/-- `paginate` is a page of keyset pagination. -/
theorem paginate_eq (S : Server) {after : Option Cursor} (limit : Nat)
    (hafter : ∀ cursor ∈ after, kind.Of cursor.1)
    (hrows : ∀ row ∈ rows, kind.Of (Py.field row.payload S.field)) :
    paginate S.py.repr rows S.field S.entity
        (after.map fun cursor => (cursor.1, .str cursor.2)) limit =
      .ok (Keyset.page S.rowRank limit (after.map Cursor.rank) rows,
        if limit < (Keyset.rest S.rowRank (after.map Cursor.rank) rows).length then
          (Keyset.page S.rowRank limit (after.map Cursor.rank) rows).getLast?.map fun last =>
            (S.cursor last).token
        else none) := by
  cases after with
  | none => rfl
  | some cursor =>
    rw [paginate, Option.map_some, resume, rowsAfter_eq (hafter cursor rfl) hrows]
    rfl

theorem parseLimit_toString {py : Front.Python} (h : 1 ≤ limit ∧ limit ≤ maxLimit) :
    parseLimit py (some (toString limit)) = .ok limit := by
  have hint : py.int (Nat.toDigits 10 limit) = .ok limit :=
    py.int_toDigits (Nat.le_trans h.2 (by decide))
  rw [parseLimit, Nat.toString_eq_ofList_toDigits, py.isdigit_toDigits, String.toList_ofList]
  rw [Bool.not_true, if_neg Bool.false_ne_true, hint]
  dsimp only
  rw [if_pos h]

/-- **One request** of a client that follows `next`. -/
theorem getList_eq (h : S.Sortable kind table) (hlimit : 1 ≤ limit ∧ limit ≤ maxLimit)
    {after : Option Cursor} (hafter : ∀ cursor ∈ after, kind.Of cursor.1 ∧ cursor.1.Json S.reader) :
    ∃ page, S.getList (.table table) (query limit (after.map Cursor.token)) = .ok page ∧
      page.rows = Keyset.page S.rowRank limit (after.map Cursor.rank) (S.listing table) ∧
      page.next =
        if limit < (Keyset.rest S.rowRank (after.map Cursor.rank) (S.listing table)).length then
          (Keyset.page S.rowRank limit (after.map Cursor.rank) (S.listing table)).getLast?.map
            fun last => (S.cursor last).token
        else none := by
  obtain ⟨rows, hrows, -, hlisting⟩ := h.listing_eq
  have hread : S.readRows (.table table) = .ok rows := by
    rw [Server.readRows, hrows]
  have hparam : S.readLimit (query limit (after.map Cursor.token)) = .ok limit := by
    have hlookup : (query limit (after.map Cursor.token)).lookup "limit" = some (toString limit) :=
      rfl
    rw [Server.readLimit, hlookup, parseLimit_toString hlimit]
  have htoken : S.readAfter (query limit (after.map Cursor.token)) =
      .ok (after.map fun cursor => (cursor.1, Value.str cursor.2)) := by
    cases after with
    | none => rfl
    | some cursor =>
      have hlookup : (query limit ((some cursor).map Cursor.token)).lookup "after" =
          some (String.ofList cursor.token) := rfl
      rw [Server.readAfter, hlookup]
      dsimp only
      rw [String.toList_ofList, Cursor.token, decodeCursor_encodeCursor (hafter cursor rfl).2]
      rfl
  have hpage := paginate_eq S limit (fun cursor hcursor => (hafter cursor hcursor).1)
    fun row hrow => h.kind_of_mem hrow
  have hresponse : S.getList (.table table) (query limit (after.map Cursor.token)) =
      S.respond (paginate S.py.repr (rows.map stripSchemaGen) S.field S.entity
        (after.map fun cursor => (cursor.1, Value.str cursor.2)) limit) := by
    rw [Server.getList, hparam, htoken, hread]
    rfl
  rw [hresponse, ← hlisting, hpage]
  exact ⟨_, rfl, rfl, rfl⟩

/-! ### Following `next` -/

theorem follow_of_getList {after : Option (List Char)} {page : Page}
    (h : S.getList (.table table) (query limit after) = .ok page) :
    S.follow limit after (table :: tables) =
      match page.next with
      | none => some [page]
      | some token => (S.follow limit (some token) tables).map (page :: ·) := by
  cases hnext : page.next <;> simp only [Server.follow, h, hnext]

/-- **Following `next`** is keyset pagination by rank. -/
theorem follow_rows (hlimit : 1 ≤ limit ∧ limit ≤ maxLimit)
    (htables : ∀ table ∈ tables, S.Sortable kind table) (after : Option Cursor)
    (hafter : ∀ cursor ∈ after, kind.Of cursor.1 ∧ cursor.1.Json S.reader) :
    (S.follow limit (after.map Cursor.token) tables).map (List.map Page.rows) =
      Keyset.follow S.rowRank limit (after.map Cursor.rank) (tables.map S.listing) := by
  induction tables generalizing after with
  | nil => rfl
  | cons table tables ih =>
    have htable := htables table List.mem_cons_self
    obtain ⟨page, hpage, hrows, hnext⟩ := getList_eq htable hlimit hafter
    rw [follow_of_getList hpage, List.map_cons, Keyset.follow]
    by_cases hlast :
        (Keyset.rest S.rowRank (after.map Cursor.rank) (S.listing table)).length ≤ limit
    · rw [if_neg (Nat.not_lt.mpr hlast)] at hnext
      rw [Keyset.next_eq_none hlast, hnext]
      dsimp only
      rw [Option.map_some, List.map_cons, List.map_nil, hrows]
    · obtain ⟨last, hgetLast, hmem, hkeyset⟩ :=
        Keyset.next_eq_some hlimit.1 (Nat.lt_of_not_le hlast)
      rw [if_pos (Nat.lt_of_not_le hlast), hgetLast] at hnext
      have hlisted := Keyset.mem_of_mem_rest hmem
      have ih := ih (fun other hother => htables other (List.mem_cons_of_mem table hother))
        (some (S.cursor last))
        (fun cursor hcursor => by
          rw [← Option.some.inj hcursor]
          exact ⟨htable.kind_of_mem hlisted, htable.json_of_mem hlisted⟩)
      rw [hkeyset, hnext]
      dsimp only [Option.map_some] at ih ⊢
      rw [rank_cursor] at ih
      rw [← ih, ← hrows, Option.map_map, Option.map_map]
      rfl

/-- Following `next` of a table that does not change comes to an end. -/
theorem follow_terminates (h : S.Sortable kind table) (hlimit : 1 ≤ limit ∧ limit ≤ maxLimit) :
    ∃ m, (S.follow limit none (List.replicate m table)).isSome := by
  have hkeyset : ∃ m, (Keyset.follow S.rowRank limit none
      (List.replicate m (S.listing table))).isSome :=
    Keyset.follow_replicate_isSome hlimit.1 (S.listing table) none
  obtain ⟨m, hm⟩ := hkeyset
  refine ⟨m, ?_⟩
  have htables : ∀ other ∈ List.replicate m table, S.Sortable kind other := by
    intro other hother
    rw [List.eq_of_mem_replicate hother]
    exact h
  have hrows := follow_rows hlimit htables none fun _ hcursor => nomatch hcursor
  rw [List.map_replicate] at hrows
  have hsome := congrArg Option.isSome hrows
  rw [Option.isSome_map] at hsome
  exact hsome.trans hm

/-! ### The law -/

/-- A client that follows `next` from the first page gets the listing of the table: each row once,
and in order. -/
def Server.Complete (S : Server) (limit : Nat) (table : List Row) : Prop :=
  ∃ m pages, S.follow limit none (List.replicate m table) = some pages ∧
    pages.flatMap Page.rows = S.listing table

/-- While tables change, a row that is in all of them is on one page, once. -/
def Server.Untouched (S : Server) (limit : Nat) (tables : List (List Row)) : Prop :=
  ∀ pages, S.follow limit none tables = some pages →
    ∀ row, (∀ table ∈ tables, row ∈ table) →
      (pages.flatMap Page.rows).filter (fun other => other.key = row.key) = [stripSchemaGen row]

/-- Every cursor that the server sends is decoded to what was encoded. -/
def Server.CursorsDecode (S : Server) : Prop :=
  ∀ rows params page token,
    (∀ row ∈ rows, (Py.field row.payload S.field).Json S.reader) →
      S.getList (.table rows) params = .ok page → page.next = some token →
        ∃ value key, token = encodeCursor value key ∧ decodeCursor S.reader token = .ok (value, key)

/-- **The law** of the list pages. -/
def PaginationLaw : Prop :=
  ∀ (S : Server) (kind : Kind) (limit : Nat), 1 ≤ limit ∧ limit ≤ maxLimit →
    (∀ table, S.Sortable kind table → S.Complete limit table) ∧
      (∀ tables, (∀ table ∈ tables, S.Sortable kind table) → S.Untouched limit tables) ∧
        S.CursorsDecode

theorem complete_iff (h : S.Sortable kind table) (hlimit : 1 ≤ limit ∧ limit ≤ maxLimit) :
    S.Complete limit table ↔ Keyset.CutsInOrder S.rowRank limit (S.listing table) := by
  have htables : ∀ m, ∀ other ∈ List.replicate m table, S.Sortable kind other := by
    intro m other hother
    rw [List.eq_of_mem_replicate hother]
    exact h
  have hrows : ∀ m, (S.follow limit none (List.replicate m table)).map (List.map Page.rows) =
      Keyset.follow S.rowRank limit none (List.replicate m (S.listing table)) := by
    intro m
    have heq := follow_rows hlimit (htables m) none fun _ hcursor => nomatch hcursor
    rw [List.map_replicate] at heq
    exact heq
  have hnodup : (S.listing table).Nodup := h.nodup_listing.of_map Row.key
  constructor
  · rintro ⟨m, pages, hfollow, hpages⟩
    have hkeyset := hrows m
    rw [hfollow, Option.map_some] at hkeyset
    refine (Keyset.flatten_follow_iff hlimit.1 hnodup hkeyset.symm).mp ?_
    rw [← List.flatMap_def]
    exact hpages
  · intro hcuts
    obtain ⟨m, hm⟩ := follow_terminates h hlimit
    obtain ⟨pages, hfollow⟩ := Option.isSome_iff_exists.mp hm
    have hkeyset := hrows m
    rw [hfollow, Option.map_some] at hkeyset
    refine ⟨m, pages, hfollow, ?_⟩
    rw [List.flatMap_def]
    exact (Keyset.flatten_follow_iff hlimit.1 hnodup hkeyset.symm).mpr hcuts

theorem filter_key_eq (hnodup : (rows.map Row.key).Nodup) (hrow : row ∈ rows) :
    rows.filter (fun other => other.key = row.key) = [row] := by
  induction rows with
  | nil => cases hrow
  | cons first rows ih =>
    rw [List.map_cons, List.nodup_cons] at hnodup
    rcases List.mem_cons.mp hrow with rfl | hmem
    · rw [List.filter_cons_of_pos (by simp), List.filter_eq_nil_iff.mpr]
      intro other hother heq
      exact hnodup.1 (List.mem_map.mpr ⟨other, hother, of_decide_eq_true heq⟩)
    · rw [List.filter_cons_of_neg, ih hnodup.2 hmem]
      intro heq
      exact hnodup.1 (List.mem_map.mpr ⟨row, hmem, (of_decide_eq_true heq).symm⟩)

/-- A row of the table is the one of the listing that is under its key. -/
theorem Server.Sortable.filter_listing (h : S.Sortable kind table) (hrow : row ∈ table) :
    (S.listing table).filter (fun other => other.key = row.key) = [stripSchemaGen row] := by
  obtain ⟨rows, -, hperm, hlisting⟩ := h.listing_eq
  have hmem : stripSchemaGen row ∈ S.listing table := by
    rw [hlisting]
    exact List.mem_map_of_mem (hperm.mem_iff.mpr hrow)
  exact filter_key_eq h.nodup_listing hmem

theorem untouched_of_steady (hlimit : 1 ≤ limit ∧ limit ≤ maxLimit)
    (htables : ∀ table ∈ tables, S.Sortable kind table)
    (hsteady : Keyset.Steady S.rowRank limit none (tables.map S.listing)) :
    S.Untouched limit tables := by
  intro pages hfollow row hrow
  have hkeyset := follow_rows hlimit htables none fun _ hcursor => nomatch hcursor
  rw [Option.map_none, hfollow, Option.map_some] at hkeyset
  have hlistings : ∀ listing ∈ tables.map S.listing,
      listing.filter (fun other => other.key = row.key) = [stripSchemaGen row] := by
    intro listing hlisting
    obtain ⟨table, htable, rfl⟩ := List.mem_map.mp hlisting
    exact (htables table htable).filter_listing (hrow table htable)
  have hfilter := Keyset.filter_flatten_follow hlimit.1 hkeyset.symm hlistings hsteady
    fun _ hcursor => nomatch hcursor
  rw [List.flatMap_def]
  exact hfilter

theorem mem_of_querySorted {store : Store} (h : store.querySorted field table = .ok rows)
    (hrow : row ∈ rows) :
    row ∈ table := by
  cases store with
  | fake =>
    rw [Store.querySorted, fakeSorted] at h
    obtain ⟨sorted, hsorted, h⟩ := bind_eq_ok.mp h
    obtain rfl := pure_eq_ok.mp h
    have hitems := List.mergeSort_perm table fun a b => decide (a.key ≤ b.key)
    rcases List.mem_append.mp hrow with hrow | hrow
    · exact hitems.mem_iff.mp (List.mem_filter.mp ((perm_of_sortBy hsorted).mem_iff.mp hrow)).1
    · exact hitems.mem_iff.mp (List.mem_filter.mp hrow).1
  | sqlite db =>
    obtain rfl := Except.ok.inj h
    exact (List.mergeSort_perm _ _).mem_iff.mp hrow

theorem mem_of_rowsAfter {after : List Value}
    (h : rowsAfter quote entity field after rows = .ok rest) (hrow : row ∈ rest) : row ∈ rows := by
  induction rows generalizing rest with
  | nil =>
    obtain rfl := Except.ok.inj h
    exact hrow
  | cons first rows ih =>
    rw [rowsAfter] at h
    obtain ⟨greater, -, h⟩ := bind_eq_ok.mp h
    obtain ⟨others, hothers, h⟩ := bind_eq_ok.mp h
    obtain rfl := pure_eq_ok.mp h
    cases greater with
    | true =>
      rcases List.mem_cons.mp hrow with rfl | hrow
      · exact List.mem_cons_self
      · exact List.mem_cons_of_mem first (ih hothers hrow)
    | false => exact List.mem_cons_of_mem first (ih hothers hrow)

theorem mem_of_resume (h : resume quote rows field entity after = .ok rest) (hrow : row ∈ rest) :
    row ∈ rows := by
  cases after with
  | none =>
    obtain rfl := Except.ok.inj h
    exact hrow
  | some cursor =>
    rw [resume] at h
    split at h
    · cases h
    · next hrest =>
      obtain rfl := Except.ok.inj h
      exact mem_of_rowsAfter hrest hrow

/-- A cursor is that of a row that was listed. -/
theorem next_of_paginate {page : List Row} {token : List Char}
    (h : paginate quote rows field entity after limit = .ok (page, some token)) :
    ∃ last ∈ rows, token =
      encodeCursor (Py.field last.payload field) (.str (rowKey quote entity last.payload)) := by
  rw [paginate] at h
  obtain ⟨rest, hrest, h⟩ := bind_eq_ok.mp h
  have heq := (Prod.mk.inj (pure_eq_ok.mp h)).2
  split at heq
  · obtain ⟨last, hlast, htoken⟩ := Option.map_eq_some_iff.mp heq
    have hmem := List.mem_of_mem_take (List.mem_of_getLast? hlast)
    exact ⟨last, mem_of_resume hrest hmem, htoken.symm⟩
  · cases heq

theorem cursorsDecode (S : Server) : S.CursorsDecode := by
  intro rows params page token hjson hpage htoken
  rw [Server.getList] at hpage
  obtain ⟨limit, -, hpage⟩ := bind_eq_ok.mp hpage
  obtain ⟨after, -, hpage⟩ := bind_eq_ok.mp hpage
  obtain ⟨listed, hlisted, hpage⟩ := bind_eq_ok.mp hpage
  cases hpaged : paginate S.py.repr (listed.map stripSchemaGen) S.field S.entity after limit with
  | error detail =>
    rw [hpaged] at hpage
    cases hpage
  | ok paged =>
    rw [hpaged] at hpage
    obtain rfl := Except.ok.inj hpage
    have hnext : paged = (paged.1, some token) := Prod.ext rfl htoken
    rw [hnext] at hpaged
    obtain ⟨last, hlast, rfl⟩ := next_of_paginate hpaged
    obtain ⟨stored, hstored, rfl⟩ := List.mem_map.mp hlast
    have hread : S.store.querySorted S.field rows = .ok listed := by
      rw [Server.readRows] at hlisted
      split at hlisted
      · cases hlisted
      · next hsorted =>
        rw [hsorted, Except.ok.inj hlisted]
    have hvalue := hjson stored (mem_of_querySorted hread hstored)
    exact ⟨_, _, rfl, decodeCursor_encodeCursor (json_stripSchemaGen hvalue) _⟩

/-! ### Rows under the keys that are computed from them -/

/-- The place of a row, by the key it is stored under. -/
def storeRank (field : String) (row : Row) : Rank := rank (Py.field row.payload field) row.key

theorem storeRank_of_present (h : isMissing field row = false) :
    storeRank field row = toLex (false, toLex (scalar (Py.field row.payload field), row.key)) :=
  rank_of_ne (ne_none_of_isMissing h) row.key

theorem storeRank_of_missing (h : isMissing field row = true) :
    storeRank field row = toLex (true, toLex (toLex (0, ""), row.key)) := by
  unfold isMissing at h
  split at h
  · next hnone => rw [storeRank, hnone, rank]
  · cases h

/-- `FakeRepository` lists the rows in order of the field and the key they are stored under. -/
theorem fakeSorted_pairwise {kind : Kind} {table : List Row}
    (hkind : ∀ row ∈ table, kind.Of (Py.field row.payload field))
    (hnodup : (table.map Row.key).Nodup) (h : fakeSorted field table = .ok rows) :
    rows.Pairwise fun a b => storeRank field a < storeRank field b := by
  rw [fakeSorted] at h
  obtain ⟨present, hpresent, h⟩ := bind_eq_ok.mp h
  obtain ⟨sorted, hsorted, hperm, hbefore⟩ := sortBy_present hkind
  unfold items at hsorted hperm
  rw [hsorted] at hpresent
  obtain rfl := Except.ok.inj hpresent
  obtain rfl := pure_eq_ok.mp h
  have hkeys : (items table).Pairwise fun a b => a.key < b.key := by
    have htrans : ∀ a b d : Row, decide (a.key ≤ b.key) = true → decide (b.key ≤ d.key) = true →
        decide (a.key ≤ d.key) = true := fun a b d hab hbd =>
      decide_eq_true (le_trans (of_decide_eq_true hab) (of_decide_eq_true hbd))
    have htotal : ∀ a b : Row, (decide (a.key ≤ b.key) || decide (b.key ≤ a.key)) = true := by
      intro a b
      rw [Bool.or_eq_true, decide_eq_true_iff, decide_eq_true_iff]
      exact le_total a.key b.key
    have hle : (items table).Pairwise fun a b => decide (a.key ≤ b.key) = true :=
      List.pairwise_mergeSort htrans htotal table
    have hne : (items table).Pairwise fun a b => a.key ≠ b.key :=
      List.pairwise_map.mp (((perm_items table).map Row.key).nodup_iff.mpr hnodup)
    exact (hle.and hne).imp fun h => lt_of_le_of_ne (of_decide_eq_true h.1) h.2
  have hpresence : ∀ row ∈ sorted, isMissing field row = false := by
    intro row hrow
    have hmem := (List.mem_filter.mp (hperm.mem_iff.mp hrow)).2
    rwa [Bool.not_eq_true'] at hmem
  have hmissing : ∀ row ∈ (items table).filter (fun row => isMissing field row),
      isMissing field row = true := fun row hrow => (List.mem_filter.mp hrow).2
  refine List.pairwise_append.mpr ⟨?_, ?_, ?_⟩
  · -- two rows under different keys are never equal to the comparison
    have hne : sorted.Pairwise fun a b => a.key ≠ b.key := by
      have hitems := (hkeys.imp fun h => ne_of_lt h).sublist
        (List.filter_sublist (p := fun row => !isMissing field row))
      exact hitems.perm hperm.symm fun h => h.symm
    refine ((hbefore.and hne).imp_of_mem ?_)
    intro a b ha hb h
    rw [storeRank_of_present (hpresence a ha), storeRank_of_present (hpresence b hb),
      Prod.Lex.toLex_lt_toLex]
    refine Or.inr ⟨rfl, ?_⟩
    rcases h.1 with hlt | ⟨heq, -⟩
    · exact compare_lt_iff_lt.mp hlt
    · have hsame := compare_eq_iff_eq.mp heq
      exact absurd (congrArg (fun key => (ofLex key).2) hsame) h.2
  · refine (hkeys.sublist (List.filter_sublist (p := fun row => isMissing field row))).imp_of_mem ?_
    intro a b ha hb h
    rw [storeRank_of_missing (hmissing a ha), storeRank_of_missing (hmissing b hb),
      Prod.Lex.toLex_lt_toLex]
    refine Or.inr ⟨rfl, ?_⟩
    rw [Prod.Lex.toLex_lt_toLex]
    exact Or.inr ⟨rfl, h⟩
  · intro a ha b hb
    rw [storeRank_of_present (hpresence a ha), storeRank_of_missing (hmissing b hb),
      Prod.Lex.toLex_lt_toLex]
    exact Or.inl Bool.false_lt_true

/-- A table whose rows are in order of the field and their keys is listed as it is. -/
theorem fakeSorted_of_pairwise {kind : Kind} {table : List Row}
    (hkind : ∀ row ∈ table, kind.Of (Py.field row.payload field))
    (hnodup : (table.map Row.key).Nodup)
    (h : table.Pairwise fun a b => storeRank field a < storeRank field b) :
    fakeSorted field table = .ok table := by
  obtain ⟨rows, hrows, hperm⟩ := fakeSorted_ok hkind
  have hsorted := fakeSorted_pairwise hkind hnodup hrows
  have hantisymm : ∀ a b, a ∈ rows → b ∈ table → storeRank field a < storeRank field b →
      storeRank field b < storeRank field a → a = b :=
    fun a b _ _ hab hba => absurd hba (lt_asymm hab)
  rw [hrows, hperm.eq_of_pairwise hantisymm hsorted h]

/-- In a listing whose sort keys only grow, every cut is in order. -/
theorem cutsInOrder_of_pairwise {key : Row → Rank} (h : rows.Pairwise fun a b => key a < key b) :
    Keyset.CutsInOrder key limit rows := by
  intro i _ _ last hlast
  have hsplit := h
  rw [← List.take_append_drop (i * limit) rows, List.pairwise_append] at hsplit
  refine ⟨fun row hrow => ?_, fun row hrow => hsplit.2.2 last (List.mem_of_getLast? hlast) row hrow⟩
  obtain ⟨before, hbefore⟩ := List.getLast?_eq_some_iff.mp hlast
  have hpage := hsplit.1
  rw [hbefore, List.pairwise_append] at hpage
  rw [hbefore, List.mem_append, List.mem_singleton] at hrow
  rcases hrow with hrow | rfl
  · exact (hpage.2.2 row hrow last (List.mem_singleton_self last)).le
  · exact le_rfl

/-! ### The list pages -/

/-- Orders that are listed by their total. -/
def orders : Server where
  py := Front.Python.ascii
  reader := { float := fun _ => none, decode := fun _ _ => none }
  store := .fake
  entity := "Order"
  field := "total"
  fields := [{ name := "total", type := "Integer" }]
  refinements := []

/-- Two orders with the same total. -/
def twoOrders (id id' : Fields) : List Row :=
  [{ key := "Order#1", payload := ("total", .int 5) :: id },
    { key := "Order#2", payload := ("total", .int 5) :: id' }]

theorem sortable_twoOrders (id id' : Fields) : orders.Sortable .number (twoOrders id id') where
  nodup := (by decide : ["Order#1", "Order#2"].Nodup)
  kind := by
    intro row hrow
    rcases List.mem_cons.mp hrow with rfl | hrow
    · exact rfl
    · rw [List.mem_singleton.mp hrow]
      exact rfl
  json := by
    have hfive : (Value.int 5).Json orders.reader := by
      rw [Value.Json]
      decide
    intro row hrow
    rcases List.mem_cons.mp hrow with rfl | hrow
    · exact hfive
    · rw [List.mem_singleton.mp hrow]
      exact hfive

theorem listing_twoOrders (id id' : Fields) :
    orders.listing (twoOrders id id') = (twoOrders id id').map stripSchemaGen := by
  have h := sortable_twoOrders id id'
  have hsorted : fakeSorted "total" (twoOrders id id') = .ok (twoOrders id id') := by
    refine fakeSorted_of_pairwise h.kind h.nodup ?_
    have hlt : storeRank "total" { key := "Order#1", payload := ("total", .int 5) :: id } <
        storeRank "total" { key := "Order#2", payload := ("total", .int 5) :: id' } :=
      (by decide : rank (.int 5) "Order#1" < rank (.int 5) "Order#2")
    exact List.pairwise_pair.mpr hlt
  show (match fakeSorted "total" (twoOrders id id') with
    | .ok rows => rows.map stripSchemaGen
    | .error _ => []) = _
  rw [hsorted]

end Lnpl.Serve.Pagination
