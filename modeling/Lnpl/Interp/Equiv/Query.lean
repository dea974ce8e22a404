import Lnpl.Drivers.Equiv.Repository
import Lnpl.Interp.Plain
import Lnpl.Interp.Query
import Lnpl.Lib.StableSort

/-!
# The three paths of a query

The query in Python and the query in SQL filter, sort and cut alike as long as what they compare is
of one storage class.  Where a number meets a text, SQL orders the number first and Python raises a
`TypeError`.
-/

namespace Lnpl.Interp

open Lnpl.Drivers.Repository Lnpl.Lib

variable {lang : Lang}

/-! ### Values -/

theorem isNull_json {v : Value} : v.json.isNull = decide (v = .null) := by
  cases v <;> rfl

variable {row : Drivers.Repository.Dict} {field : String} {a b : Value} {t : QueryTerm}
  {rows : List Dict} {order : Order} {p q : String × Drivers.Repository.Dict} {desc : Bool}

theorem get_json : Dict.get row.json field = (row.value field).json := by
  unfold Dict.get Drivers.Repository.Dict.json Drivers.Repository.Dict.value
  rw [Std.ExtTreeMap.getElem?_map]
  cases row[field]? <;> rfl

theorem compare_int_lt {m n : Int} : (compare m n = .lt) = (m < n) := by
  rw [compare_int]
  split_ifs with h h' <;> simp [h]

theorem compare_string_lt {a b : String} : (compare a b = .lt) = (a < b) := by
  rw [compare_string]
  split_ifs with h h' <;> simp [h]

theorem cmp_integer (m n : Int) : (SqlValue.integer m).cmp (.integer n) = compare m n := by
  simp [SqlValue.cmp, compareLex, compareOn, SqlValue.storageClass, SqlValue.number,
    SqlValue.string]

theorem cmp_text (s t : String) : (SqlValue.text s).cmp (.text t) = compare s t := by
  simp [SqlValue.cmp, compareLex, compareOn, SqlValue.storageClass, SqlValue.number,
    SqlValue.string]

theorem cmp_integer_text (m : Int) (s : String) : (SqlValue.integer m).cmp (.text s) = .lt := rfl

theorem cmp_text_integer (s : String) (m : Int) : (SqlValue.text s).cmp (.integer m) = .gt := rfl

/-- How two values of one storage class compare, in SQL and in Python. -/
theorem pythonLt_ok (ha : a ≠ .null) (hclass : a.sql.storageClass = b.sql.storageClass) :
    pythonLt a b = .ok (a.sql.cmp b.sql = .lt) := by
  cases a <;> cases b <;> first
    | exact absurd rfl ha
    | simp only [Value.sql, pythonLt, Fake.lt?, cmp_integer, cmp_text, compare_int_lt,
        compare_string_lt]; done
    | simp only [Value.sql, SqlValue.storageClass, reduceCtorEq, Nat.reduceEqDiff] at hclass

theorem pythonLt_error (ha : a ≠ .null) (hclass : a.sql.storageClass ≠ b.sql.storageClass) :
    pythonLt a b = .error (.other "TypeError") := by
  cases a <;> cases b <;> first | rfl | exact absurd rfl hclass

theorem class_eq_of_pythonLt {less : Bool} (h : pythonLt a b = .ok less) :
    a.sql.storageClass = b.sql.storageClass := by
  cases a <;> cases b <;> first | rfl | exact absurd h (by simp [pythonLt, Fake.lt?])

theorem toInt_inj {a b : Bool} : a.toInt = b.toInt ↔ a = b := by
  cases a <;> cases b <;> decide

/-- Two values are equal in SQL if they are in Python. -/
theorem pythonEq_eq (ha : a ≠ .null) (hb : b ≠ .null) :
    pythonEq a b = decide (a.sql.cmp b.sql = .eq) := by
  cases a <;> cases b <;> first
    | exact absurd rfl ha
    | exact absurd rfl hb
    | simp [Value.sql, pythonEq, cmp_integer, cmp_text, cmp_integer_text, cmp_text_integer,
        toInt_inj]

/-! ### Terms -/

instance : Std.TransCmp SqlValue.cmp := by
  unfold SqlValue.cmp
  infer_instance

theorem predicateOp_ok (hlang : lang.ComparesAsPython) {op : Comparator} (ha : a ≠ .null)
    (hb : b ≠ .null) (hclass : op.ordering → a.sql.storageClass = b.sql.storageClass) :
    predicateOp lang op.symbol a.json b.json = .ok (op.accepts (a.sql.cmp b.sql)) := by
  have hswap : b.sql.cmp a.sql = (a.sql.cmp b.sql).swap := Std.OrientedCmp.eq_swap
  cases op with
  | eq =>
    show Except.ok (lang.eq a.json b.json) = _
    rw [hlang.eq, pythonEq_eq ha hb]
    rfl
  | ne =>
    show Except.ok (!lang.eq a.json b.json) = _
    rw [hlang.eq, pythonEq_eq ha hb, ← decide_not]
    rfl
  | lt =>
    show lang.lt a.json b.json = _
    rw [hlang.lt, pythonLt_ok ha (hclass rfl)]
    rfl
  | le =>
    show lang.le a.json b.json = _
    rw [hlang.le, pythonLt_ok hb (hclass rfl).symm, hswap]
    cases a.sql.cmp b.sql <;> rfl
  | gt =>
    show lang.lt b.json a.json = _
    rw [hlang.lt, pythonLt_ok hb (hclass rfl).symm, hswap]
    cases a.sql.cmp b.sql <;> rfl
  | ge =>
    show lang.le b.json a.json = _
    rw [hlang.le, pythonLt_ok ha (hclass rfl)]
    cases a.sql.cmp b.sql <;> rfl

theorem predicateOp_error (hlang : lang.ComparesAsPython) {op : Comparator} (ha : a ≠ .null)
    (hb : b ≠ .null) (hop : op.ordering) (hclass : a.sql.storageClass ≠ b.sql.storageClass) :
    predicateOp lang op.symbol a.json b.json = .error (.other "TypeError") := by
  cases op with
  | eq => exact absurd hop Bool.false_ne_true
  | ne => exact absurd hop Bool.false_ne_true
  | lt => exact (hlang.lt a b).trans (pythonLt_error ha hclass)
  | le =>
    show lang.le a.json b.json = _
    rw [hlang.le, pythonLt_error hb hclass.symm]
    rfl
  | gt => exact (hlang.lt b a).trans (pythonLt_error hb hclass.symm)
  | ge =>
    show lang.le b.json a.json = _
    rw [hlang.le, pythonLt_error ha hclass]
    rfl

theorem holds_of_null (h : row.value t.field = .null ∨ t.value = .null) : t.holds row = false := by
  unfold QueryTerm.holds Comparator.sql
  rw [if_pos (h.imp sql_eq_null.mpr sql_eq_null.mpr)]
  rfl

theorem holds_of_ne_null (ha : row.value t.field ≠ .null) (hb : t.value ≠ .null) :
    t.holds row = t.op.accepts ((row.value t.field).sql.cmp t.value.sql) := by
  unfold QueryTerm.holds Comparator.sql
  rw [if_neg (not_or.mpr ⟨mt sql_eq_null.mp ha, mt sql_eq_null.mp hb⟩)]
  simp

theorem rowMatches_null {predicate : List QueryTerm}
    (h : row.value t.field = .null ∨ t.value = .null) :
    rowMatches lang row.json ((t :: predicate).map QueryTerm.resolved) = .ok false := by
  show (do
    let actual := Dict.get row.json t.field
    if actual.isNull || t.value.json.isNull then return false
    if !(← predicateOp lang t.op.symbol actual t.value.json) then return false
    rowMatches lang row.json (predicate.map QueryTerm.resolved)) = _
  dsimp only
  rw [get_json, isNull_json, isNull_json, ← Bool.decide_or, decide_eq_true h]
  rfl

theorem rowMatches_cons {predicate : List QueryTerm} (ha : row.value t.field ≠ .null)
    (hb : t.value ≠ .null) :
    rowMatches lang row.json ((t :: predicate).map QueryTerm.resolved) = (do
      let holds ← predicateOp lang t.op.symbol (row.value t.field).json t.value.json
      if holds then rowMatches lang row.json (predicate.map QueryTerm.resolved)
      else return false) := by
  show (do
    let actual := Dict.get row.json t.field
    if actual.isNull || t.value.json.isNull then return false
    if !(← predicateOp lang t.op.symbol actual t.value.json) then return false
    rowMatches lang row.json (predicate.map QueryTerm.resolved)) = _
  dsimp only
  rw [get_json, isNull_json, isNull_json, ← Bool.decide_or, decide_eq_false (not_or.mpr ⟨ha, hb⟩)]
  cases predicateOp lang t.op.symbol (row.value t.field).json t.value.json with
  | error e => rfl
  | ok holds => cases holds <;> rfl

/-- A row whose terms compare is matched as in SQL. -/
theorem rowMatches_ok (hlang : lang.ComparesAsPython) {predicate : List QueryTerm}
    (h : TermsCompare row predicate) :
    rowMatches lang row.json (predicate.map QueryTerm.resolved) =
      .ok (predicate.all fun t => t.holds row) := by
  induction predicate with
  | nil => rfl
  | cons t predicate ih =>
    obtain ⟨hclass, hrest⟩ := h
    rw [List.all_cons]
    by_cases hnull : row.value t.field = .null ∨ t.value = .null
    · rw [rowMatches_null hnull, holds_of_null hnull, Bool.false_and]
    · obtain ⟨ha, hb⟩ := not_or.mp hnull
      rw [rowMatches_cons ha hb, predicateOp_ok hlang ha hb fun hop => hclass hop ha hb,
        ← holds_of_ne_null ha hb]
      cases hholds : t.holds row with
      | false => rfl
      | true => exact ih (hrest hholds)

/-- The terms of a row that is matched compare. -/
theorem termsCompare_of_rowMatches (hlang : lang.ComparesAsPython) {predicate : List QueryTerm}
    {holds : Bool} (h : rowMatches lang row.json (predicate.map QueryTerm.resolved) = .ok holds) :
    TermsCompare row predicate := by
  induction predicate with
  | nil => exact trivial
  | cons t predicate ih =>
    by_cases hnull : row.value t.field = .null ∨ t.value = .null
    · refine ⟨fun _ ha hb => absurd hnull (not_or.mpr ⟨ha, hb⟩), fun hholds => ?_⟩
      exact absurd ((holds_of_null hnull).symm.trans hholds) Bool.false_ne_true
    · obtain ⟨ha, hb⟩ := not_or.mp hnull
      rw [rowMatches_cons ha hb] at h
      have hclass : t.op.ordering → (row.value t.field).sql.storageClass =
          t.value.sql.storageClass := by
        intro hop
        by_contra hne
        rw [predicateOp_error hlang ha hb hop hne] at h
        exact nomatch h
      refine ⟨fun hop _ _ => hclass hop, fun hholds => ih ?_⟩
      rw [predicateOp_ok hlang ha hb hclass, ← holds_of_ne_null ha hb, hholds] at h
      exact h

/-! ### Filtering -/

variable {items : List (String × Drivers.Repository.Dict)} {predicate : List QueryTerm}

/-- The rows that match. -/
abbrev matched (items : List (String × Drivers.Repository.Dict)) (predicate : List QueryTerm) :
    List (String × Drivers.Repository.Dict) :=
  items.filter fun p => predicate.all fun t => t.holds p.2

theorem filterRows_ok (hlang : lang.ComparesAsPython)
    (h : ∀ p ∈ items, TermsCompare p.2 predicate) :
    filterRows lang (predicate.map QueryTerm.resolved) (jsonRows items) =
      .ok (jsonRows (matched items predicate)) := by
  induction items with
  | nil => rfl
  | cons p items ih =>
    show (do
      let holds ← rowMatches lang p.2.json (predicate.map QueryTerm.resolved)
      let rest ← filterRows lang (predicate.map QueryTerm.resolved) (jsonRows items)
      return if holds then p.2.json :: rest else rest) = _
    have hcons : matched (p :: items) predicate =
        if predicate.all fun t => t.holds p.2 then p :: matched items predicate
        else matched items predicate := List.filter_cons
    rw [rowMatches_ok hlang (h p List.mem_cons_self),
      ih fun q hq => h q (List.mem_cons_of_mem p hq), hcons]
    cases predicate.all fun t => t.holds p.2 <;> rfl

theorem termsCompare_of_filterRows (hlang : lang.ComparesAsPython)
    (h : filterRows lang (predicate.map QueryTerm.resolved) (jsonRows items) = .ok rows) :
    ∀ p ∈ items, TermsCompare p.2 predicate := by
  induction items generalizing rows with
  | nil => exact fun _ hp => nomatch hp
  | cons q items ih =>
    change (do
      let holds ← rowMatches lang q.2.json (predicate.map QueryTerm.resolved)
      let rest ← filterRows lang (predicate.map QueryTerm.resolved) (jsonRows items)
      return if holds then q.2.json :: rest else rest) = _ at h
    cases hrow : rowMatches lang q.2.json (predicate.map QueryTerm.resolved) with
    | error e =>
      rw [hrow] at h
      exact nomatch h
    | ok holds =>
      cases hrest : filterRows lang (predicate.map QueryTerm.resolved) (jsonRows items) with
      | error e =>
        rw [hrow, hrest] at h
        exact nomatch h
      | ok rest =>
        exact List.forall_mem_cons.mpr ⟨termsCompare_of_rowMatches hlang hrow, ih hrest⟩

theorem filterRows_nil (rows : List Dict) : filterRows lang [] rows = .ok rows := by
  induction rows with
  | nil => rfl
  | cons row rows ih =>
    rw [filterRows, ih]
    rfl

/-! ### Sorting -/

/-- Python's comparison of two rows by the field of `order by`. -/
def rowLt (order : Order) (p q : String × Drivers.Repository.Dict) : Except Exc Bool :=
  if order.desc then pythonLt (q.2.value order.field) (p.2.value order.field)
  else pythonLt (p.2.value order.field) (q.2.value order.field)

theorem insertRow_eq {lt : Json → Json → Except Exc Bool} (row : Dict) (rows : List Dict) :
    insertRow lt field row rows =
      insertBy (fun a b => lt (Dict.get a field) (Dict.get b field)) row rows := by
  induction rows with
  | nil => rfl
  | cons other rows ih => rw [insertRow, insertBy, ih]

theorem sortRows_eq (hlang : lang.ComparesAsPython) (order : Order) :
    sortRows lang order (jsonRows items) = (sortBy (rowLt order) items).map jsonRows := by
  have hlt : (fun p q : String × Drivers.Repository.Dict =>
      (if order.desc then fun a b => lang.lt b a else lang.lt) (Dict.get p.2.json order.field)
        (Dict.get q.2.json order.field)) = rowLt order := by
    funext p q
    rw [get_json, get_json, rowLt]
    cases order.desc with
    | false => exact hlang.lt _ _
    | true => exact hlang.lt _ _
  rw [← hlt]
  unfold sortRows
  simp only [insertRow_eq]
  exact sortBy_map items

instance (field : String) (desc : Bool) : Std.TransCmp (SqliteDriver.valueCmp field desc) := by
  cases desc with
  | false =>
    exact { eq_swap := fun {_ _} => @Std.OrientedCmp.eq_swap _ SqlValue.cmp _ _ _,
            isLE_trans := fun {_ _ _} => @Std.TransCmp.isLE_trans _ SqlValue.cmp _ _ _ _ }
  | true =>
    exact { eq_swap := fun {_ _} => @Std.OrientedCmp.eq_swap _ SqlValue.cmp _ _ _,
            isLE_trans := fun {_ _ _} h h' =>
              @Std.TransCmp.isLE_trans _ SqlValue.cmp _ _ _ _ h' h }

instance (order : Option (String × Bool)) : Std.TransCmp (SqliteDriver.orderCmp order) := by
  cases order with
  | none =>
    unfold SqliteDriver.orderCmp
    infer_instance
  | some order =>
    unfold SqliteDriver.orderCmp
    infer_instance

theorem rowLt_answers (hp : p.2.value order.field ≠ .null) (hq : q.2.value order.field ≠ .null)
    (hclass : (p.2.value order.field).sql.storageClass =
      (q.2.value order.field).sql.storageClass) :
    Answers (rowLt order) (SqliteDriver.valueCmp order.field order.desc) p q := by
  unfold Answers rowLt SqliteDriver.valueCmp
  cases order.desc with
  | false => exact pythonLt_ok hp hclass
  | true => exact pythonLt_ok hq hclass.symm

theorem orderCmp_present (hp : p.2.value field ≠ .null) (hq : q.2.value field ≠ .null)
    (h : Before (SqliteDriver.valueCmp field desc) (fun p q => compare p.1 q.1 = .lt) p q) :
    SqliteDriver.orderCmp (some (field, desc)) p q = .lt := by
  rcases h with h | ⟨heq, h⟩
  · simp [SqliteDriver.orderCmp, compareLex, compareOn, sql_eq_null, hp, hq, h]
  · simp [SqliteDriver.orderCmp, compareLex, compareOn, sql_eq_null, hp, hq, heq, h]

theorem orderCmp_present_missing (hp : p.2.value field ≠ .null) (hq : q.2.value field = .null) :
    SqliteDriver.orderCmp (some (field, desc)) p q = .lt := by
  have hzero : compare 0 1 = Ordering.lt := by decide
  simp [SqliteDriver.orderCmp, compareLex, compareOn, sql_eq_null, hp, hq, hzero]

theorem orderCmp_missing (hp : p.2.value field = .null) (hq : q.2.value field = .null)
    (h : compare p.1 q.1 = .lt) :
    SqliteDriver.orderCmp (some (field, desc)) p q = .lt := by
  have hself : SqliteDriver.valueCmp field desc p q = .eq := by
    unfold SqliteDriver.valueCmp
    rw [hp, hq]
    cases desc <;> rfl
  simp [SqliteDriver.orderCmp, compareLex, compareOn, hp, hq, hself, h]

/-! ### The whole query -/

theorem filter_jsonRows :
    (jsonRows items).filter (fun row => (Dict.get row field).isNull) =
      jsonRows (items.filter fun p => p.2.value field = .null) := by
  unfold jsonRows
  rw [List.filter_map]
  congr 1
  refine List.filter_congr fun p _ => ?_
  show (Dict.get p.2.json field).isNull = _
  rw [get_json, isNull_json]

theorem filter_not_jsonRows :
    (jsonRows items).filter (fun row => !(Dict.get row field).isNull) =
      jsonRows (items.filter fun p => p.2.value field ≠ .null) := by
  unfold jsonRows
  rw [List.filter_map]
  congr 1
  refine List.filter_congr fun p _ => ?_
  show (!(Dict.get p.2.json field).isNull) = _
  rw [get_json, isNull_json, decide_not]

/-- Rows in key order are put in the order of SQL. -/
theorem orderRows_ok (hlang : lang.ComparesAsPython)
    (hkeys : items.Pairwise fun p q => compare p.1 q.1 = .lt)
    (hclass : ∀ p ∈ items, ∀ q ∈ items, p.2.value order.field ≠ .null →
      q.2.value order.field ≠ .null →
        (p.2.value order.field).sql.storageClass = (q.2.value order.field).sql.storageClass) :
    orderRows lang order (jsonRows items) = .ok (jsonRows (items.mergeSort fun p q =>
      (SqliteDriver.orderCmp (some (order.field, order.desc)) p q).isLE)) := by
  have hpresent : ∀ p ∈ items.filter fun p => p.2.value order.field ≠ .null,
      p ∈ items ∧ p.2.value order.field ≠ .null := fun p hp =>
    ⟨List.mem_of_mem_filter hp, of_decide_eq_true (List.mem_filter.mp hp).2⟩
  have hmissing : ∀ p ∈ items.filter fun p => p.2.value order.field = .null,
      p.2.value order.field = .null := fun p hp => of_decide_eq_true (List.mem_filter.mp hp).2
  obtain ⟨r, hr, hperm, hsorted⟩ := sortBy_ok (fun p hp q hq =>
    rowLt_answers (hpresent p hp).2 (hpresent q hq).2
      (hclass p (hpresent p hp).1 q (hpresent q hq).1 (hpresent p hp).2 (hpresent q hq).2))
    (hkeys.filter fun p => p.2.value order.field ≠ .null)
  have hlt : (r ++ items.filter fun p => p.2.value order.field = .null).Pairwise fun p q =>
      SqliteDriver.orderCmp (some (order.field, order.desc)) p q = .lt := by
    refine List.pairwise_append.mpr ⟨?_, ?_, fun p hp q hq => ?_⟩
    · refine hsorted.imp_of_mem fun hp hq h => ?_
      exact orderCmp_present (hpresent _ (hperm.mem_iff.mp hp)).2
        (hpresent _ (hperm.mem_iff.mp hq)).2 h
    · refine (hkeys.filter _).imp_of_mem fun hp hq h => ?_
      exact orderCmp_missing (hmissing _ hp) (hmissing _ hq) h
    · exact orderCmp_present_missing (hpresent p (hperm.mem_iff.mp hp)).2 (hmissing q hq)
  have hall : (r ++ items.filter fun p => p.2.value order.field = .null).Perm items := by
    refine (hperm.append_right _).trans ?_
    simpa using List.filter_append_perm (fun p => p.2.value order.field ≠ .null) items
  unfold orderRows
  dsimp only
  rw [filter_jsonRows, filter_not_jsonRows, sortRows_eq hlang, hr, mergeSort_eq_of_pairwise hall hlt]
  exact congrArg Except.ok List.map_append.symm

/-- The rows that are put in order have values of one storage class in the field. -/
theorem class_eq_of_orderRows (hlang : lang.ComparesAsPython)
    (h : orderRows lang order (jsonRows items) = .ok rows) :
    ∀ p ∈ items, ∀ q ∈ items, p.2.value order.field ≠ .null → q.2.value order.field ≠ .null →
      (p.2.value order.field).sql.storageClass = (q.2.value order.field).sql.storageClass := by
  have hkind : ∀ (p q : String × Drivers.Repository.Dict) (less : Bool), rowLt order p q = .ok less →
      (p.2.value order.field).sql.storageClass = (q.2.value order.field).sql.storageClass := by
    intro p q less h
    unfold rowLt at h
    cases hdesc : order.desc with
    | false =>
      rw [hdesc] at h
      exact class_eq_of_pythonLt h
    | true =>
      rw [hdesc] at h
      exact (class_eq_of_pythonLt h).symm
  unfold orderRows at h
  dsimp only at h
  rw [filter_jsonRows, filter_not_jsonRows, sortRows_eq hlang] at h
  cases hsort : sortBy (rowLt order) (items.filter fun p => p.2.value order.field ≠ .null) with
  | error e =>
    rw [hsort] at h
    exact nomatch h
  | ok r =>
    intro p hp q hq hpn hqn
    exact kind_eq_of_sortBy hkind hsort p (List.mem_filter.mpr ⟨hp, decide_eq_true hpn⟩) q
      (List.mem_filter.mpr ⟨hq, decide_eq_true hqn⟩)

theorem fakeQuery_eq (predicate : Option (List QueryTerm)) (order : Option Order)
    (limit : Option Nat) :
    Fake.query lang items predicate order limit = applyPredicate lang (jsonRows items)
      (predicate.map (List.map QueryTerm.resolved)) order limit := by
  unfold Fake.query
  cases predicate <;> cases order <;> cases limit <;> rfl

/-- `apply_predicate`, step by step. -/
theorem applyPredicate_eq (predicate : Option (List QueryTerm)) (order : Option Order)
    (limit : Option Nat) (rows : List Dict) :
    applyPredicate lang rows (predicate.map (List.map QueryTerm.resolved)) order limit = (do
      let rows ← filterRows lang ((predicate.getD []).map QueryTerm.resolved) rows
      let rows ← match order with
        | none => .ok rows
        | some order => orderRows lang order rows
      return match limit with
        | none => rows
        | some limit => rows.take limit) := by
  cases predicate with
  | none =>
    have hbind : ∀ k : List Dict → Except Exc (List Dict),
        Except.bind (filterRows lang [] rows) k = k rows :=
      fun k => congrArg (Except.bind · k) (filterRows_nil rows)
    show _ = Except.bind (filterRows lang [] rows) _
    refine Eq.trans ?_ (hbind _).symm
    cases order <;> rfl
  | some predicate => cases order <;> rfl

/-- A query that compares values of one storage class gives the rows that SQL gives. -/
theorem applyPredicate_ok (hlang : lang.ComparesAsPython)
    (hkeys : items.Pairwise fun p q => compare p.1 q.1 = .lt) {predicate : Option (List QueryTerm)}
    {order : Option Order} (limit : Option Nat) (h : Compares items predicate order) :
    applyPredicate lang (jsonRows items) (predicate.map (List.map QueryTerm.resolved)) order limit =
      .ok ((SqliteDriver.query items predicate (order.map Order.pair) limit).map
        Drivers.Repository.Dict.json) := by
  have htake : ∀ found : List (String × Drivers.Repository.Dict),
      (match limit with
        | none => jsonRows found
        | some limit => (jsonRows found).take limit) =
      ((match limit with
        | none => found
        | some limit => found.take limit).map Prod.snd).map Drivers.Repository.Dict.json := by
    intro found
    cases limit with
    | none => exact (List.map_map ..).symm
    | some limit =>
      show (jsonRows found).take limit = _
      rw [jsonRows, List.map_map, List.map_take]
      rfl
  have hfilter : (matched items (predicate.getD [])).Pairwise fun p q => compare p.1 q.1 = .lt :=
    hkeys.filter _
  rw [applyPredicate_eq, filterRows_ok hlang h.terms]
  refine Eq.trans ?_ (congrArg Except.ok (htake ((matched items (predicate.getD [])).mergeSort
    fun p q => (SqliteDriver.orderCmp (order.map Order.pair) p q).isLE)))
  cases order with
  | none =>
    have hsort := mergeSort_eq_of_pairwise (List.Perm.refl _)
      (show (matched items (predicate.getD [])).Pairwise fun p q =>
        SqliteDriver.orderCmp none p q = .lt from hfilter)
    rw [Option.map_none, hsort]
    rfl
  | some order =>
    have hmatched : ∀ p ∈ matched items (predicate.getD []),
        p ∈ items ∧ (predicate.getD []).all (·.holds p.2) := fun p hp => List.mem_filter.mp hp
    have hsort := orderRows_ok hlang hfilter fun p hp q hq =>
      h.order order rfl p (hmatched p hp).1 q (hmatched q hq).1 (hmatched p hp).2 (hmatched q hq).2
    show Except.bind (orderRows lang order (jsonRows (matched items (predicate.getD [])))) _ = _
    rw [hsort]
    rfl

/-- A query that Python answers compares values of one storage class. -/
theorem compares_of_applyPredicate (hlang : lang.ComparesAsPython)
    {predicate : Option (List QueryTerm)} {order : Option Order} {limit : Option Nat}
    (h : applyPredicate lang (jsonRows items) (predicate.map (List.map QueryTerm.resolved)) order
      limit = .ok rows) : Compares items predicate order := by
  rw [applyPredicate_eq] at h
  cases hfilter : filterRows lang ((predicate.getD []).map QueryTerm.resolved) (jsonRows items) with
  | error e =>
    rw [hfilter] at h
    exact nomatch h
  | ok found =>
    have hterms := termsCompare_of_filterRows hlang hfilter
    obtain rfl := Except.ok.inj ((filterRows_ok hlang hterms).symm.trans hfilter)
    refine ⟨hterms, fun o ho p hp q hq hpm hqm => ?_⟩
    obtain rfl := Option.mem_def.mp ho
    rw [filterRows_ok hlang hterms] at h
    cases hsort : orderRows lang o (jsonRows (matched items (predicate.getD []))) with
    | error e =>
      change Except.bind (orderRows lang o (jsonRows (matched items (predicate.getD [])))) _ = _ at h
      rw [hsort] at h
      exact nomatch h
    | ok sorted =>
      exact class_eq_of_orderRows hlang hsort p (List.mem_filter.mpr ⟨hp, hpm⟩) q
        (List.mem_filter.mpr ⟨hq, hqm⟩)

/-! ### The plain language -/

theorem plainLt_json (a b : Value) : Json.plainLt a.json b.json = pythonLt a b := by
  have hbool : ∀ b : Bool, (if b then (1 : Int) else 0) = b.toInt := by decide
  cases a <;> cases b <;>
    simp [Value.json, Json.plainLt, Json.number?, pythonLt, Fake.lt?, hbool]

theorem plainEq_json (a b : Value) : Json.plainEq a.json b.json = pythonEq a b := by
  have hbool : ∀ b : Bool, (if b then (1 : Int) else 0) = b.toInt := by decide
  cases a <;> cases b <;>
    simp [Value.json, Json.plainEq, Json.number?, pythonEq, hbool, toInt_inj]

theorem plain_comparesAsPython : Lang.plain.ComparesAsPython where
  lt := plainLt_json
  le a b := congrArg (Except.map not) (plainLt_json b a)
  eq := plainEq_json

/-- An item that was created with a text for its quantity. -/
def textItem : Drivers.Repository.Dict := (∅ : Drivers.Repository.Dict).insert "qty" (.text "x")

/-- The store of that item. -/
def textItems : Tables := Tables.empty.set "Item" "Item#1" textItem

/-- A runtime over a driver that holds that item and declares no `supports_predicate`. -/
def textRuntime : Runtime Unit Unit Unit :=
  .plain { id := "w", name := "list", body := [], constraints := {} }
    (.silent (jsonRows (textItems.itemsOf "Item")))

/-- `where qty < 1`. -/
def belowOne : List QueryTerm := [⟨"qty", .lt, .int 1⟩]

/-! ### The three paths -/

variable {ρ χ ν : Type}

/-- The fallback applies the predicate to the rows of the driver. -/
theorem queryRows_fallback {rt : Runtime ρ χ ν} {s : Exec ρ χ ν} {entity : String} {r' : ρ}
    (hfallback : rt.repo.queryPredicate = none) (hquery : rt.repo.query entity s.repo = .ok rows r')
    (predicate : Option (List QueryTerm)) (order : Option Order) (limit : Option Nat)
    {found : List Dict}
    (h : applyPredicate rt.lang rows (predicate.map (List.map QueryTerm.resolved)) order limit =
      .ok found) :
    ∃ s', queryRows rt entity (predicate.map (List.map QueryTerm.resolved)) order limit s =
      .ok found s' := by
  have honRepo : (onRepo (rt.repo.query entity) : M ρ χ ν (List Dict)) s =
      .ok rows { s with repo := r' } := by
    unfold onRepo Lib.EStateM.zoom
    rw [hquery]
  have hfetch : ∀ f : List Dict → M ρ χ ν (List Dict),
      (do f (← onRepo (rt.repo.query entity))) s = f rows { s with repo := r' } := by
    intro f
    show EStateM.bind _ _ s = _
    unfold EStateM.bind
    rw [honRepo]
  unfold queryRows
  split
  · rename_i hnone
    -- without a clause the rows are those of the table
    refine ⟨{ s with repo := r' }, ?_⟩
    rw [honRepo]
    cases predicate <;> cases order <;> cases limit <;> first
      | exact absurd hnone Bool.false_ne_true
      | exact congrArg (EStateM.Result.ok · _) (Except.ok.inj h)
  · rw [hfallback]
    dsimp only
    rw [hfetch, h]
    exact ⟨_, rfl⟩

/-- **The three paths of a query.**  For every table they give the same rows in the same order, and
none raises, exactly when what the query compares is of one storage class. -/
theorem queriesAgree_iff {rt : Runtime ρ χ ν} (hlang : rt.lang.ComparesAsPython)
    (hfallback : rt.repo.queryPredicate = none) (T : Tables) (entity : String) {s : Exec ρ χ ν}
    {r' : ρ} (hquery : rt.repo.query entity s.repo = .ok (jsonRows (T.itemsOf entity)) r')
    (predicate : Option (List QueryTerm)) (order : Option Order) (limit : Option Nat) :
    QueriesAgree rt s entity (T.itemsOf entity) predicate order limit ↔
      Compares (T.itemsOf entity) predicate order := by
  constructor
  · rintro ⟨hfake, -⟩
    rw [fakeQuery_eq] at hfake
    exact compares_of_applyPredicate hlang hfake
  · intro h
    have hok := applyPredicate_ok hlang Std.ExtTreeMap.ordered_keys_toList limit h
    refine ⟨?_, queryRows_fallback hfallback hquery predicate order limit hok⟩
    rw [fakeQuery_eq]
    exact hok

/-- A query of a text against a text. -/
theorem queriesAgree_iff_textItems :
    QueriesAgree textRuntime .plain "Item" (textItems.itemsOf "Item")
        (some [⟨"qty", .lt, .text "y"⟩]) (some ⟨"qty", true⟩) (some 1) ↔
      Compares (textItems.itemsOf "Item") (some [⟨"qty", .lt, .text "y"⟩]) (some ⟨"qty", true⟩) :=
  queriesAgree_iff plain_comparesAsPython rfl textItems "Item" rfl _ _ _

/-- **A number against a text.**  SQL finds no item, Python raises. -/
theorem query_number_text :
    SqliteDriver.query (textItems.itemsOf "Item") (some belowOne) none none = [] ∧
    Fake.query Lang.plain (textItems.itemsOf "Item") (some belowOne) none none =
      .error (.other "TypeError") ∧
    ¬QueriesAgree textRuntime .plain "Item" (textItems.itemsOf "Item") (some belowOne) none none := by
  have hraise : Fake.query Lang.plain (textItems.itemsOf "Item") (some belowOne) none none =
      .error (.other "TypeError") := rfl
  refine ⟨?_, hraise, fun h => ?_⟩
  · have hitems : matched (textItems.itemsOf "Item") belowOne = [] := rfl
    show ((matched (textItems.itemsOf "Item") belowOne).mergeSort _).map Prod.snd = []
    rw [hitems, List.mergeSort_nil]
    rfl
  · exact nomatch hraise.symm.trans h.1

end Lnpl.Interp
