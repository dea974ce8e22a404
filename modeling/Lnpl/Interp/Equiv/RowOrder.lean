import Mathlib.Data.List.ReduceOption
import Lnpl.Interp.Equiv.Aggregates
import Lnpl.Interp.Plain

/-!
# Aggregates and the order of the rows

`min`, `max`, `count` and every aggregate of money give the same for the rows in any order.  A sum
or an average of integers does iff no order has a sum on the way that leaves the 64-bit range where
another has none (`aggregate_order_iff`): the range is checked after each number, of money after the
last.
-/

namespace Lnpl.Interp

open Front (Python AggFunc Aggregate)
open Lib (Rounding.halfEven bind_eq_ok mapM_eq_ok pure_eq_ok PartialSums.SumsWithin
  PartialSums.gains PartialSums.losses PartialSums.sumsWithin_congr_iff)

/-! ### The same aggregate -/

/-- What `min` and `max` order a value by. -/
inductive RankKey where
  | number (n : Int)
  | instant (ms : Int)
  | money (pair : Pair)

/-- `key_of`, or `encode`, of a value by its own shape. -/
def encodedKey (py : Python) (ops : JsonOps) (field expression : String) (value : Json) :
    Except AggFault RankKey :=
  match value with
  | .obj _ => .money <$> moneyPair py ops "compare" field expression value
  | .str _ => .instant <$> instantKey py ops field expression value
  | _ => .number <$> wholeNumber py ops "compare" field expression value

/-- Two runs of an aggregate give the same number or amount, `min` and `max` a value of the same
key, or both fail. -/
def SameAggregate (py : Python) (ops : JsonOps) (func : AggFunc) (field expression : String) :
    Except AggFault Json → Except AggFault Json → Prop
  | .ok a, .ok b =>
    if func = .min ∨ func = .max then
      ∃ key, encodedKey py ops field expression a = .ok key ∧
        encodedKey py ops field expression b = .ok key
    else a = b
  | .error _, .error _ => True
  | _, _ => False

/-- A sum or an average of integers has its gains and its losses in the range, or fails in every
order: the total is outside, or a number is and cannot be placed. -/
def OrderFree (py : Python) (ops : JsonOps) (agg : Aggregate) (expression : String)
    (rowsets : RowSets) (fieldOptional : Bool) : Prop :=
  agg.func = .sum ∨ agg.func = .avg →
    ∀ values ns,
      fieldValues py (refBinding agg.ref) (refField agg.ref) expression fieldOptional
        (rowsOf rowsets (refBinding agg.ref)) = .ok values →
      values.mapM (wholeNumber py ops agg.func.word (refField agg.ref) expression) = .ok ns →
        (PartialSums.gains ns ≤ int64Max ∧ int64Min ≤ PartialSums.losses ns) ∨
        (ns.sum < int64Min ∨ int64Max < ns.sum) ∨
        (∃ n ∈ ns, n < int64Min ∨ int64Max < n) ∧
          ∀ ms : List Int, ms.Perm ns → ¬PartialSums.SumsWithin int64Min int64Max 0 ms

variable {py : Python} {ops : JsonOps} {func : AggFunc} {field expression binding : String}

/-! ### Runs over a list in another order -/

variable {ε α β : Type} {optional : Bool} {rows : List Dict} {values values' : List Json}
  {result : Json}

variable {f : α → Except ε β} {xs : List α} {ys : List β} {rows' : List Dict} {value best : Json}
  {n : Int} {ns : List Int} {a b : Except AggFault Json} {x : Except ε α}

theorem mapM_perm {xs' : List α} (hperm : xs'.Perm xs) (h : xs.mapM f = .ok ys) :
    ∃ ys', xs'.mapM f = .ok ys' ∧ ys'.Perm ys := by
  obtain ⟨ys', hys, hperm'⟩ := List.perm_comp_forall₂ hperm (mapM_eq_ok.mp h)
  exact ⟨ys', mapM_eq_ok.mpr hys, hperm'⟩

theorem mapM_perm_results {ys' : List β} (hperm : ys'.Perm ys) (h : xs.mapM f = .ok ys) :
    ∃ xs' : List α, xs'.Perm xs ∧ xs'.mapM f = .ok ys' := by
  obtain ⟨xs', hxs, hperm'⟩ := List.perm_comp_forall₂ hperm (mapM_eq_ok.mp h).flip
  exact ⟨xs', hperm', mapM_eq_ok.mpr hxs.flip⟩

/-- The values of the rows are those that are present. -/
theorem fieldValues_eq_ok :
    fieldValues py binding field expression optional rows = .ok values ↔
      ∃ options, rows.mapM (fieldValue py binding field expression optional) = .ok options ∧
        values = options.reduceOption := by
  induction rows generalizing values with
  | nil =>
    rw [fieldValues, List.mapM_nil, Except.ok.injEq]
    simp only [pure_eq_ok]
    constructor
    · rintro rfl
      exact ⟨[], rfl, rfl⟩
    · rintro ⟨options, rfl, hvalues⟩
      exact hvalues.symm
  | cons row rows ih =>
    rw [fieldValues, List.mapM_cons]
    simp only [bind_eq_ok, pure_eq_ok, ih]
    constructor
    · rintro ⟨value, hvalue, _, ⟨options, hoptions, rfl⟩, rfl⟩
      refine ⟨value :: options, ⟨value, hvalue, options, hoptions, rfl⟩, ?_⟩
      cases value with
      | none => rfl
      | some value => rfl
    · rintro ⟨_, ⟨value, hvalue, options, hoptions, rfl⟩, rfl⟩
      refine ⟨value, hvalue, _, ⟨options, hoptions, rfl⟩, ?_⟩
      cases value with
      | none => rfl
      | some value => rfl

theorem fieldValues_perm (hperm : rows'.Perm rows)
    (h : fieldValues py binding field expression optional rows = .ok values) :
    ∃ values', fieldValues py binding field expression optional rows' = .ok values' ∧
      values'.Perm values := by
  obtain ⟨options, hoptions, rfl⟩ := fieldValues_eq_ok.mp h
  obtain ⟨options', hoptions', hperm'⟩ := mapM_perm hperm hoptions
  exact ⟨options'.reduceOption, fieldValues_eq_ok.mpr ⟨options', hoptions', rfl⟩,
    hperm'.filterMap id⟩

theorem perm_reduceOption (options : List (Option α)) :
    (options.reduceOption.map some ++ options.filter Option.isNone).Perm options := by
  induction options with
  | nil => exact .refl []
  | cons value options ih =>
    cases value with
    | none =>
      rw [List.reduceOption_cons_of_none, List.filter_cons_of_pos rfl]
      exact List.perm_middle.trans (ih.cons none)
    | some a =>
      rw [List.reduceOption_cons_of_some, List.filter_cons_of_neg (by simp), List.map_cons]
      exact ih.cons (some a)

theorem reduceOption_append_nones (values : List α) (options : List (Option α)) :
    (values.map some ++ options.filter Option.isNone).reduceOption = values := by
  induction values with
  | nil =>
    induction options with
    | nil => rfl
    | cons value options ih =>
      cases value with
      | none => exact ih
      | some a => exact ih
  | cons a values ih =>
    rw [List.map_cons, List.cons_append, List.reduceOption_cons_of_some, ih]

/-- Values in another order are those of the rows in some other order. -/
theorem fieldValues_perm_values (hperm : values'.Perm values)
    (h : fieldValues py binding field expression optional rows = .ok values) :
    ∃ rows', rows'.Perm rows ∧
      fieldValues py binding field expression optional rows' = .ok values' := by
  obtain ⟨options, hoptions, rfl⟩ := fieldValues_eq_ok.mp h
  have hperm' : (values'.map some ++ options.filter Option.isNone).Perm options :=
    ((hperm.map some).append_right _).trans (perm_reduceOption options)
  obtain ⟨rows', hrows, hoptions'⟩ := mapM_perm_results hperm' hoptions
  exact ⟨rows', hrows, fieldValues_eq_ok.mpr
    ⟨_, hoptions', (reduceOption_append_nones values' options).symm⟩⟩

/-! ### Sums and averages -/

theorem wholeNumber_not_obj {task : String}
    (h : wholeNumber py ops task field expression value = .ok n) :
    ∀ fields, value ≠ .obj fields := by
  rintro fields rfl
  cases h

theorem moneyPair_obj {verb : String} {pair : Pair}
    (h : moneyPair py ops verb field expression value = .ok pair) :
    ∃ fields, value = .obj fields := by
  cases value with
  | obj fields => exact ⟨fields, rfl⟩
  | _ => cases h

/-- What a sum or an average of numbers returns, once they are added up. -/
def numberResult (func : AggFunc) (ns : List Int) (result : Json) : Prop :=
  if func = .sum then result = .int ns.sum
  else ∃ n, avgRound ns.sum ns.length = .ok n ∧ result = .int n

/-- What a sum or an average of money returns. -/
def moneyResult (ops : JsonOps) (func : AggFunc) (pairs : List Pair) (result : Json) : Prop :=
  ∃ currency, (∀ pair ∈ pairs, pair.2 = currency) ∧
    (int64Min ≤ (pairs.map Prod.fst).sum ∧ (pairs.map Prod.fst).sum ≤ int64Max) ∧
    ∃ minor,
      (if func = .avg then avgRound (pairs.map Prod.fst).sum pairs.length
        else .ok (pairs.map Prod.fst).sum) = .ok minor ∧
      decodeMoney ops minor currency = .ok result

theorem numberResult_perm {ms : List Int} (hperm : ms.Perm ns) (h : numberResult func ns result) :
    numberResult func ms result := by
  rw [numberResult] at h ⊢
  rwa [hperm.sum_eq, hperm.length_eq]

theorem moneyResult_perm {pairs pairs' : List Pair} (hperm : pairs'.Perm pairs)
    (h : moneyResult ops func pairs result) : moneyResult ops func pairs' result := by
  obtain ⟨currency, hcodes, hrange, minor, hminor, hresult⟩ := h
  have hsum := (hperm.map Prod.fst).sum_eq
  refine ⟨currency, fun pair hpair => hcodes pair (hperm.mem_iff.mp hpair), ?_, minor, ?_, hresult⟩
  · rwa [hsum]
  · rwa [hsum, hperm.length_eq]

/-- Values are added up as numbers, or as money. -/
theorem evalSumAvg_eq_ok {aggFieldType : Option String} (hne : values ≠ []) :
    evalSumAvg py ops func values field expression aggFieldType = .ok result ↔
      (∃ ns, values.mapM (wholeNumber py ops func.word field expression) = .ok ns ∧
        PartialSums.SumsWithin int64Min int64Max 0 ns ∧ numberResult func ns result) ∨
      ∃ pairs, values.mapM (moneyPair py ops func.word field expression) = .ok pairs ∧
        moneyResult ops func pairs result := by
  cases values with
  | nil => exact absurd rfl hne
  | cons first rest =>
    by_cases hobj : ∃ fields, first = .obj fields
    · obtain ⟨fields, rfl⟩ := hobj
      have hnumbers : ∀ ns,
          (Json.obj fields :: rest).mapM (wholeNumber py ops func.word field expression) ≠
            .ok ns := by
        intro ns hns
        obtain ⟨n, -, hn⟩ := Lib.exists_of_mapM hns List.mem_cons_self
        exact wholeNumber_not_obj hn fields rfl
      rw [evalSumAvg_money_eq_ok]
      constructor
      · rintro ⟨pairs, currency, hpairs, hcodes, hrange, minor, hminor, hresult⟩
        have hlength : pairs.length = rest.length + 1 := (mapM_eq_ok.mp hpairs).length_eq.symm
        refine .inr ⟨pairs, hpairs, currency, hcodes, hrange, minor, ?_, hresult⟩
        rw [hlength]
        exact hminor
      · rintro (⟨ns, hns, -⟩ | ⟨pairs, hpairs, currency, hcodes, hrange, minor, hminor, hresult⟩)
        · exact absurd hns (hnumbers ns)
        · have hlength : pairs.length = rest.length + 1 := (mapM_eq_ok.mp hpairs).length_eq.symm
          rw [hlength] at hminor
          exact ⟨pairs, currency, hpairs, hcodes, hrange, minor, hminor, hresult⟩
    · have hpairs : ∀ pairs,
          (first :: rest).mapM (moneyPair py ops func.word field expression) ≠ .ok pairs := by
        intro pairs hpairs
        obtain ⟨pair, -, hpair⟩ := Lib.exists_of_mapM hpairs List.mem_cons_self
        exact hobj (moneyPair_obj hpair)
      rw [evalSumAvg_numbers (fun fields hfields => hobj ⟨fields, hfields⟩), bind_eq_ok]
      simp only [addNumbers_eq_ok]
      constructor
      · rintro ⟨_, ⟨ns, hns, hsums, rfl⟩, h⟩
        refine .inl ⟨ns, hns, hsums, ?_⟩
        rw [numberResult]
        have hlength : ns.length = (first :: rest).length := (mapM_eq_ok.mp hns).length_eq.symm
        split_ifs at h ⊢ with hfunc
        · exact (pure_eq_ok.mp h).symm
        · obtain ⟨n, hn, h⟩ := bind_eq_ok.mp h
          rw [hlength]
          exact ⟨n, hn, (pure_eq_ok.mp h).symm⟩
      · rintro (⟨ns, hns, hsums, h⟩ | ⟨pairs, hmoney, -⟩)
        · refine ⟨ns.sum, ⟨ns, hns, hsums, rfl⟩, ?_⟩
          rw [numberResult] at h
          have hlength : ns.length = (first :: rest).length := (mapM_eq_ok.mp hns).length_eq.symm
          split_ifs at h ⊢ with hfunc
          · exact pure_eq_ok.mpr h.symm
          · obtain ⟨n, hn, rfl⟩ := h
            rw [hlength] at hn
            exact bind_eq_ok.mpr ⟨n, hn, rfl⟩
        · exact absurd hmoney (hpairs pairs)

theorem evalSumAvg_perm {aggFieldType : Option String} (hperm : values'.Perm values)
    (hsums : ∀ ns ms : List Int, ms.Perm ns →
      values.mapM (wholeNumber py ops func.word field expression) = .ok ns →
      PartialSums.SumsWithin int64Min int64Max 0 ns →
        PartialSums.SumsWithin int64Min int64Max 0 ms)
    (h : evalSumAvg py ops func values field expression aggFieldType = .ok result) :
    evalSumAvg py ops func values' field expression aggFieldType = .ok result := by
  by_cases hne : values = []
  · rw [hne] at hperm h
    rw [List.perm_nil.mp hperm]
    exact h
  · have hne' : values' ≠ [] := by
      rintro rfl
      exact hne (List.nil_perm.mp hperm)
    rw [evalSumAvg_eq_ok hne] at h
    rw [evalSumAvg_eq_ok hne']
    rcases h with ⟨ns, hns, hwithin, hresult⟩ | ⟨pairs, hpairs, hresult⟩
    · obtain ⟨ms, hms, hperm'⟩ := mapM_perm hperm hns
      exact .inl ⟨ms, hms, hsums ns ms hperm' hns hwithin, numberResult_perm hperm' hresult⟩
    · obtain ⟨pairs', hpairs', hperm'⟩ := mapM_perm hperm hpairs
      exact .inr ⟨pairs', hpairs', moneyResult_perm hperm' hresult⟩

/-- Numbers are added up iff every sum on the way is in the range. -/
theorem exists_evalSumAvg_iff {aggFieldType : Option String} (hne : values ≠ [])
    (hns : values.mapM (wholeNumber py ops func.word field expression) = .ok ns) :
    (∃ result, evalSumAvg py ops func values field expression aggFieldType = .ok result) ↔
      PartialSums.SumsWithin int64Min int64Max 0 ns := by
  have hlength := (mapM_eq_ok.mp hns).length_eq
  simp only [evalSumAvg_eq_ok hne]
  constructor
  · rintro ⟨result, ⟨ms, hms, hsums, -⟩ | ⟨pairs, hpairs, -⟩⟩
    · rw [hns, Except.ok.injEq] at hms
      rw [hms]
      exact hsums
    · cases values with
      | nil => exact absurd rfl hne
      | cons first rest =>
        obtain ⟨n, -, hn⟩ := Lib.exists_of_mapM hns List.mem_cons_self
        obtain ⟨pair, -, hpair⟩ := Lib.exists_of_mapM hpairs List.mem_cons_self
        obtain ⟨fields, hfields⟩ := moneyPair_obj hpair
        exact absurd hfields (wholeNumber_not_obj hn fields)
  · intro hsums
    have hrange := hsums.sum (by decide)
    rw [zero_add] at hrange
    have hcount : (1 : Int) ≤ ns.length := by
      rw [← hlength]
      exact_mod_cast List.length_pos_of_ne_nil hne
    by_cases hfunc : func = .sum
    · exact ⟨.int ns.sum, .inl ⟨ns, hns, hsums, by rw [numberResult, if_pos hfunc]⟩⟩
    · have haverage : numberResult func ns (.int (Rounding.halfEven (ns.sum / ns.length))) := by
        rw [numberResult, if_neg hfunc]
        exact ⟨_, avgRound_eq hrange.1 hrange.2 hcount, rfl⟩
      exact ⟨_, .inl ⟨ns, hns, hsums, haverage⟩⟩

/-! ### Least and greatest -/

/-- The kind of a key, and its currency. -/
def RankKey.group : RankKey → RankKey
  | .number _ => .number 0
  | .instant _ => .instant 0
  | .money pair => .money (0, pair.2)

/-- The number of a key. -/
def RankKey.rank : RankKey → Int
  | .number n => n
  | .instant ms => ms
  | .money pair => pair.1

theorem RankKey.eq_of_rank {a b : RankKey} (hgroup : a.group = b.group) (hrank : a.rank = b.rank) :
    a = b := by
  cases a with
  | number n =>
    cases b with
    | number m => exact congrArg number hrank
    | _ => cases hgroup
  | instant n =>
    cases b with
    | instant m => exact congrArg instant hrank
    | _ => cases hgroup
  | money pair =>
    cases b with
    | money pair' =>
      have hcodes : money (0, pair.2) = money (0, pair'.2) := hgroup
      have hcode : pair.2 = pair'.2 := (Prod.mk.inj (money.inj hcodes)).2
      exact congrArg money (Prod.ext hrank hcode)
    | _ => cases hgroup

/-- `min` looks for what is least, `max` for what is greatest. -/
def signedRank (func : AggFunc) (n : Int) : Int := if func = .min then n else -n

theorem isBetter_compareNumber {a b : Int} :
    isBetter func (compareNumber a b) = true ↔ signedRank func a < signedRank func b := by
  rw [isBetter, compareNumber, signedRank, signedRank]
  split_ifs <;> simp <;> omega

/-- The value is among those, and none is before it. -/
structure IsBest (py : Python) (ops : JsonOps) (func : AggFunc) (field expression : String)
    (values : List Json) (best : Json) : Prop where
  mem : best ∈ values
  first : ∃ keys, values.mapM (encodedKey py ops field expression) = .ok keys ∧
    (∀ k ∈ keys, ∀ k' ∈ keys, k.group = k'.group) ∧
    ∃ k, encodedKey py ops field expression best = .ok k ∧
      ∀ k' ∈ keys, signedRank func k.rank ≤ signedRank func k'.rank

/-- The keys of one kind of values, as keys of all values. -/
structure ReadsKey {κ : Type} (py : Python) (ops : JsonOps) (field expression : String)
    (key : Json → Except AggFault κ) (compare : κ → κ → Except AggFault Int)
    (embed : κ → RankKey) : Prop where
  key : ∀ value k, encodedKey py ops field expression value = .ok (embed k) ↔ key value = .ok k
  mem : ∀ k key, key.group = (embed k).group → ∃ k', key = embed k'
  compare : ∀ a b order, compare a b = .ok order ↔
    (embed a).group = (embed b).group ∧ order = compareNumber (embed a).rank (embed b).rank

section MinmaxBy

variable {κ : Type} {key : Json → Except AggFault κ} {compare : κ → κ → Except AggFault Int}
  {embed : κ → RankKey}

/-- One turn of the loop over the values. -/
def takeBest (func : AggFunc) (key : Json → Except AggFault κ)
    (compare : κ → κ → Except AggFault Int) (best : Json × κ) (value : Json) :
    Except AggFault (Json × κ) := do
  let valueKey ← key value
  let order ← compare valueKey best.2
  return if isBetter func order then (value, valueKey) else best

variable {best best' : Json × κ} {keys : List RankKey} {first : Json} {rest : List Json}

section

variable (hkey : ReadsKey py ops field expression key compare embed)
include hkey

theorem takeBest_eq_ok (func : AggFunc) {value : Json} :
    takeBest func key compare best value = .ok best' ↔
      ∃ k, key value = .ok k ∧ (embed k).group = (embed best.2).group ∧
        best' = if signedRank func (embed k).rank < signedRank func (embed best.2).rank
          then (value, k) else best := by
  rw [takeBest]
  simp only [bind_eq_ok, pure_eq_ok, hkey.compare]
  constructor
  · rintro ⟨k, hk, _, ⟨hgroup, rfl⟩, rfl⟩
    refine ⟨k, hk, hgroup, ?_⟩
    simp only [isBetter_compareNumber]
  · rintro ⟨k, hk, hgroup, rfl⟩
    refine ⟨k, hk, _, ⟨hgroup, rfl⟩, ?_⟩
    simp only [isBetter_compareNumber]

/-- The loop keeps the best of what it has seen. -/
theorem takeBest_run (hbest : key best.1 = .ok best.2)
    (h : rest.foldlM (takeBest func key compare) best = .ok best') :
    key best'.1 = .ok best'.2 ∧ best'.1 ∈ best.1 :: rest ∧
      (embed best'.2).group = (embed best.2).group ∧
      signedRank func (embed best'.2).rank ≤ signedRank func (embed best.2).rank ∧
      ∃ keys, rest.mapM key = .ok keys ∧ ∀ k ∈ keys,
        (embed k).group = (embed best.2).group ∧
        signedRank func (embed best'.2).rank ≤ signedRank func (embed k).rank := by
  induction rest generalizing best with
  | nil =>
    rw [List.foldlM_nil] at h
    obtain rfl := pure_eq_ok.mp h
    exact ⟨hbest, List.mem_cons_self, rfl, le_refl _, [], rfl, by simp⟩
  | cons value rest ih =>
    rw [List.foldlM_cons] at h
    obtain ⟨next, hnext, h⟩ := bind_eq_ok.mp h
    obtain ⟨k, hk, hgroup, rfl⟩ := (takeBest_eq_ok hkey func).mp hnext
    by_cases hbetter : signedRank func (embed k).rank < signedRank func (embed best.2).rank
    · rw [if_pos hbetter] at h
      obtain ⟨hvalue, hmem, hgroup', hle, keys, hkeys, hall⟩ := ih hk h
      refine ⟨hvalue, List.mem_cons_of_mem _ hmem, hgroup'.trans hgroup, hle.trans hbetter.le,
        k :: keys, ?_, ?_⟩
      · rw [List.mapM_cons, hk, hkeys]
        rfl
      · rintro k' (_ | ⟨_, hk'⟩)
        · exact ⟨hgroup, hle⟩
        · obtain ⟨hgroup'', hle'⟩ := hall k' hk'
          exact ⟨hgroup''.trans hgroup, hle'⟩
    · rw [if_neg hbetter] at h
      obtain ⟨hvalue, hmem, hgroup', hle, keys, hkeys, hall⟩ := ih hbest h
      refine ⟨hvalue, ?_, hgroup', hle, k :: keys, ?_, ?_⟩
      · rcases List.mem_cons.mp hmem with heq | hmem
        · rw [heq]
          exact List.mem_cons_self
        · exact List.mem_cons_of_mem _ (List.mem_cons_of_mem _ hmem)
      · rw [List.mapM_cons, hk, hkeys]
        rfl
      · rintro k' (_ | ⟨_, hk'⟩)
        · exact ⟨hgroup, by omega⟩
        · exact hall k' hk'

/-- The loop goes through values whose keys are of one kind. -/
theorem exists_takeBest_run (func : AggFunc) (best : Json × κ) {keys : List κ}
    (hkeys : rest.mapM key = .ok keys)
    (hgroups : ∀ k ∈ keys, (embed k).group = (embed best.2).group) :
    ∃ best', rest.foldlM (takeBest func key compare) best = .ok best' := by
  induction rest generalizing best keys with
  | nil => exact ⟨best, rfl⟩
  | cons value rest ih =>
    rw [List.mapM_cons] at hkeys
    obtain ⟨k, hk, hkeys⟩ := bind_eq_ok.mp hkeys
    obtain ⟨keys', hkeys', hkeys⟩ := bind_eq_ok.mp hkeys
    obtain rfl := pure_eq_ok.mp hkeys
    rw [List.forall_mem_cons] at hgroups
    have hnext := (takeBest_eq_ok hkey func).mpr ⟨k, hk, hgroups.1, rfl⟩
    simp only [List.foldlM_cons, bind_eq_ok, hnext, Except.ok.injEq, exists_eq_left']
    apply ih _ hkeys'
    split_ifs
    · intro k' hk'
      exact (hgroups.2 k' hk').trans hgroups.1.symm
    · exact hgroups.2

theorem mapM_embed {values : List Json} {keys : List κ} :
    values.mapM (encodedKey py ops field expression) = .ok (keys.map embed) ↔
      values.mapM key = .ok keys := by
  rw [mapM_eq_ok, mapM_eq_ok, List.forall₂_map_right_iff]
  simp only [hkey.key]

theorem exists_map_embed {k : κ} (hgroup : ∀ k' ∈ keys, k'.group = (embed k).group) :
    ∃ ks : List κ, keys = ks.map embed := by
  induction keys with
  | nil => exact ⟨[], rfl⟩
  | cons key keys ih =>
    rw [List.forall_mem_cons] at hgroup
    obtain ⟨k', rfl⟩ := hkey.mem _ _ hgroup.1
    obtain ⟨ks, rfl⟩ := ih hgroup.2
    exact ⟨k' :: ks, rfl⟩

/-- **The best of the values** is what the loop returns, and there is one iff the keys are of one
kind. -/
theorem minmaxBy_best {best : Json} (h : minmaxBy func key compare first rest = .ok best) :
    IsBest py ops func field expression (first :: rest) best := by
  obtain ⟨firstKey, hfirst, h⟩ := bind_eq_ok.mp h
  obtain ⟨best', hrun, h⟩ := bind_eq_ok.mp h
  obtain rfl := pure_eq_ok.mp h
  obtain ⟨hvalue, hmem, hgroup, hle, keys, hkeys, hall⟩ := takeBest_run hkey hfirst hrun
  have hmapM : (first :: rest).mapM key = .ok (firstKey :: keys) := by
    rw [List.mapM_cons, hfirst, hkeys]
    rfl
  have hgroups : ∀ k ∈ (firstKey :: keys).map embed, k.group = (embed firstKey).group := by
    rw [List.forall_mem_map, List.forall_mem_cons]
    exact ⟨rfl, fun k hk => (hall k hk).1⟩
  refine ⟨hmem, _, (mapM_embed hkey).mpr hmapM, ?_, _, (hkey.key _ _).mpr hvalue, ?_⟩
  · intro k hk k' hk'
    rw [hgroups k hk, hgroups k' hk']
  · rw [List.forall_mem_map, List.forall_mem_cons]
    exact ⟨hle, fun k hk => (hall k hk).2⟩

theorem exists_minmaxBy {firstKey : κ} (hfirst : key first = .ok firstKey)
    (hkeys : (first :: rest).mapM (encodedKey py ops field expression) = .ok keys)
    (hgroups : ∀ k ∈ keys, ∀ k' ∈ keys, k.group = k'.group) :
    ∃ best, minmaxBy func key compare first rest = .ok best := by
  have hhead := (hkey.key _ _).mpr hfirst
  rw [List.mapM_cons, hhead] at hkeys
  obtain ⟨_, heq, hkeys⟩ := bind_eq_ok.mp hkeys
  obtain rfl := Except.ok.inj heq
  obtain ⟨keys', hkeys', hkeys⟩ := bind_eq_ok.mp hkeys
  obtain rfl := pure_eq_ok.mp hkeys
  have hgroup : ∀ k ∈ keys', k.group = (embed firstKey).group := fun k hk =>
    hgroups k (List.mem_cons_of_mem _ hk) _ List.mem_cons_self
  obtain ⟨ks, rfl⟩ := exists_map_embed hkey hgroup
  rw [mapM_embed hkey] at hkeys'
  rw [List.forall_mem_map] at hgroup
  obtain ⟨best, hbest⟩ := exists_takeBest_run hkey func (first, firstKey) hkeys' hgroup
  exact ⟨best.1, bind_eq_ok.mpr ⟨firstKey, hfirst, bind_eq_ok.mpr ⟨best, hbest, rfl⟩⟩⟩

end

end MinmaxBy

/-! ### The three kinds of keys -/

theorem map_eq_ok_embed {f : α → β} (hinj : ∀ a b, f a = f b → a = b) {a : α} :
    f <$> x = .ok (f a) ↔ x = .ok a := by
  rw [Lib.map_eq_ok]
  constructor
  · rintro ⟨b, hb, heq⟩
    rw [hb, hinj b a heq]
  · intro h
    exact ⟨a, h, rfl⟩

theorem map_ne_ok {f : α → β} {b : β} (hne : ∀ a, f a ≠ b) : f <$> x ≠ .ok b := by
  rw [Ne, Lib.map_eq_ok]
  rintro ⟨a, -, h⟩
  exact hne a h

theorem readsKey_number : ReadsKey py ops field expression
    (wholeNumber py ops "compare" field expression) (fun a b => .ok (compareNumber a b))
    .number where
  key value k := by
    cases value with
    | str s => exact iff_of_false (map_ne_ok nofun) nofun
    | obj fields => exact iff_of_false (map_ne_ok nofun) nofun
    | _ => exact map_eq_ok_embed fun _ _ => RankKey.number.inj
  mem k key h := by
    cases key with
    | number n => exact ⟨n, rfl⟩
    | _ => cases h
  compare a b order := by
    rw [Except.ok.injEq, eq_comm]
    exact (and_iff_right rfl).symm

theorem readsKey_instant : ReadsKey py ops field expression (instantKey py ops field expression)
    (fun a b => .ok (compareNumber a b)) .instant where
  key value k := by
    cases value with
    | str s => exact map_eq_ok_embed fun _ _ => RankKey.instant.inj
    | _ => exact iff_of_false (map_ne_ok nofun) nofun
  mem k key h := by
    cases key with
    | instant n => exact ⟨n, rfl⟩
    | _ => cases h
  compare a b order := by
    rw [Except.ok.injEq, eq_comm]
    exact (and_iff_right rfl).symm

theorem compareMoney_eq_ok {a b : Pair} {order : Int} :
    compareMoney a b = .ok order ↔ a.2 = b.2 ∧ order = compareNumber a.1 b.1 := by
  rw [compareMoney]
  by_cases hcode : a.2 = b.2
  · rw [if_neg (fun hne => hne hcode), Except.ok.injEq, eq_comm]
    exact (and_iff_right hcode).symm
  · rw [if_pos hcode]
    exact iff_of_false nofun (fun h => hcode h.1)

theorem readsKey_money : ReadsKey py ops field expression
    (moneyPair py ops "compare" field expression)
    (fun a b => inAggregate py expression (compareMoney a b)) .money where
  key value k := by
    cases value with
    | obj fields => exact map_eq_ok_embed fun _ _ => RankKey.money.inj
    | _ => exact iff_of_false (map_ne_ok nofun) nofun
  mem k key h := by
    cases key with
    | money pair => exact ⟨pair, rfl⟩
    | _ => cases h
  compare a b order := by
    rw [inAggregate_eq_ok, compareMoney_eq_ok]
    have hgroup : (RankKey.money a).group = (RankKey.money b).group ↔ a.2 = b.2 := by
      constructor
      · intro h
        have hcodes : RankKey.money (0, a.2) = .money (0, b.2) := h
        exact (Prod.mk.inj (RankKey.money.inj hcodes)).2
      · intro h
        exact congrArg (fun code => RankKey.money (0, code)) h
    rw [hgroup]
    rfl

/-- `_eval_minmax` returns a value that is the best. -/
theorem evalMinmax_best (h : evalMinmax py ops func values field expression = .ok best) :
    IsBest py ops func field expression values best := by
  cases values with
  | nil => cases h
  | cons first rest =>
    cases first with
    | obj fields => exact minmaxBy_best readsKey_money h
    | str s => exact minmaxBy_best readsKey_instant h
    | _ => exact minmaxBy_best readsKey_number h

/-- `_eval_minmax` returns a value if the keys are of one kind. -/
theorem exists_evalMinmax {keys : List RankKey} (hne : values ≠ [])
    (hkeys : values.mapM (encodedKey py ops field expression) = .ok keys)
    (hgroups : ∀ k ∈ keys, ∀ k' ∈ keys, k.group = k'.group) :
    ∃ best, evalMinmax py ops func values field expression = .ok best := by
  cases values with
  | nil => exact absurd rfl hne
  | cons first rest =>
    obtain ⟨k, -, hk⟩ := Lib.exists_of_mapM hkeys List.mem_cons_self
    cases first with
    | obj fields =>
      obtain ⟨pair, hpair, -⟩ := Lib.map_eq_ok.mp hk
      exact exists_minmaxBy readsKey_money hpair hkeys hgroups
    | str s =>
      obtain ⟨ms, hms, -⟩ := Lib.map_eq_ok.mp hk
      exact exists_minmaxBy readsKey_instant hms hkeys hgroups
    | _ =>
      obtain ⟨n, hn, -⟩ := Lib.map_eq_ok.mp hk
      exact exists_minmaxBy readsKey_number hn hkeys hgroups

theorem signedRank_injective {a b : Int} (h : signedRank func a = signedRank func b) : a = b := by
  rw [signedRank, signedRank] at h
  split_ifs at h
  · exact h
  · exact neg_injective h

/-- The best of values in another order has the same key. -/
theorem evalMinmax_perm (hperm : values'.Perm values)
    (h : evalMinmax py ops func values field expression = .ok best) :
    ∃ best' key, evalMinmax py ops func values' field expression = .ok best' ∧
      encodedKey py ops field expression best = .ok key ∧
      encodedKey py ops field expression best' = .ok key := by
  obtain ⟨hmem, keys, hkeys, hgroups, k, hk, hleast⟩ := evalMinmax_best h
  obtain ⟨keys', hkeys', hperm'⟩ := mapM_perm hperm hkeys
  have hne : values' ≠ [] := by
    rintro rfl
    rw [List.nil_perm.mp hperm] at hmem
    cases hmem
  have hfound : ∃ best', evalMinmax py ops func values' field expression = .ok best' :=
    exists_evalMinmax hne hkeys' fun a ha b hb =>
      hgroups a (hperm'.mem_iff.mp ha) b (hperm'.mem_iff.mp hb)
  obtain ⟨best', hbest'⟩ := hfound
  obtain ⟨hmem', keys'', hkeys'', -, k', hk', hleast'⟩ := evalMinmax_best hbest'
  obtain rfl := Except.ok.inj (hkeys'.symm.trans hkeys'')
  have hkmem : k ∈ keys := (Lib.mem_mapM hkeys).mpr ⟨best, hmem, hk⟩
  have hkmem' : k' ∈ keys' := (Lib.mem_mapM hkeys').mpr ⟨best', hmem', hk'⟩
  have hrank : signedRank func k.rank = signedRank func k'.rank :=
    le_antisymm (hleast k' (hperm'.mem_iff.mp hkmem')) (hleast' k (hperm'.mem_iff.mpr hkmem))
  have hsame : k = k' :=
    RankKey.eq_of_rank (hgroups k hkmem k' (hperm'.mem_iff.mp hkmem')) (signedRank_injective hrank)
  exact ⟨best', k, hbest', hk, by rw [hsame]; exact hk'⟩

/-! ### Rows in another order -/

theorem SameAggregate.of_implies (hab : ∀ x, a = .ok x →
      ∃ y, b = .ok y ∧ SameAggregate py ops func field expression (.ok x) (.ok y))
    (hba : ∀ y, b = .ok y → ∃ x, a = .ok x) : SameAggregate py ops func field expression a b := by
  cases a with
  | ok x =>
    obtain ⟨y, rfl, h⟩ := hab x rfl
    exact h
  | error e =>
    cases b with
    | ok y =>
      obtain ⟨x, hx⟩ := hba y rfl
      cases hx
    | error e' => trivial

/-- The values of the rows are those of the rows in another order, or there are none of either. -/
theorem fieldValues_of_perm (hperm : rows'.Perm rows) :
    (∃ values values', fieldValues py binding field expression optional rows = .ok values ∧
      fieldValues py binding field expression optional rows' = .ok values' ∧
      values'.Perm values) ∨
    ∃ e e', fieldValues py binding field expression optional rows = .error e ∧
      fieldValues py binding field expression optional rows' = .error e' := by
  cases h : fieldValues py binding field expression optional rows with
  | ok values =>
    obtain ⟨values', hvalues', hperm'⟩ := fieldValues_perm hperm h
    exact .inl ⟨values, values', rfl, hvalues', hperm'⟩
  | error e =>
    cases h' : fieldValues py binding field expression optional rows' with
    | ok values' =>
      obtain ⟨values, hvalues, -⟩ := fieldValues_perm hperm.symm h'
      rw [h] at hvalues
      cases hvalues
    | error e' => exact .inr ⟨e, e', rfl, rfl⟩

theorem sameAggregate_sumAvg {aggFieldType : Option String} (hfunc : func = .sum ∨ func = .avg)
    (hperm : values'.Perm values)
    (hsums : ∀ ns, values.mapM (wholeNumber py ops func.word field expression) = .ok ns →
      ∀ ms : List Int, ms.Perm ns → (PartialSums.SumsWithin int64Min int64Max 0 ns ↔
        PartialSums.SumsWithin int64Min int64Max 0 ms)) :
    SameAggregate py ops func field expression
      (evalSumAvg py ops func values field expression aggFieldType)
      (evalSumAvg py ops func values' field expression aggFieldType) := by
  apply SameAggregate.of_implies
  · intro x hx
    refine ⟨x, evalSumAvg_perm hperm ?_ hx, ?_⟩
    · intro ns ms hms hns
      exact (hsums ns hns ms hms).mp
    · have hkeyless : ¬(func = .min ∨ func = .max) := by
        rcases hfunc with rfl | rfl
        · decide
        · decide
      rw [SameAggregate, if_neg hkeyless]
  · intro y hy
    refine ⟨y, evalSumAvg_perm hperm.symm ?_ hy⟩
    intro ns' ms hms hns' hwithin
    obtain ⟨ns, hns, hperm'⟩ := mapM_perm hperm.symm hns'
    have hsame := hsums ns hns
    exact (hsame ms (hms.trans hperm'.symm)).mp ((hsame ns' hperm'.symm).mpr hwithin)

theorem sameAggregate_minmax (hfunc : func = .min ∨ func = .max) (hperm : values'.Perm values) :
    SameAggregate py ops func field expression (evalMinmax py ops func values field expression)
      (evalMinmax py ops func values' field expression) := by
  apply SameAggregate.of_implies
  · intro x hx
    obtain ⟨y, key, hy, hkey, hkey'⟩ := evalMinmax_perm hperm hx
    refine ⟨y, hy, ?_⟩
    rw [SameAggregate, if_pos hfunc]
    exact ⟨key, hkey, hkey'⟩
  · intro y hy
    obtain ⟨x, key, hx, -⟩ := evalMinmax_perm hperm.symm hy
    exact ⟨x, hx⟩

variable {agg : Aggregate} {rowsets other : RowSets} {aggFieldType : Option String}
  {fieldOptional : Bool}

theorem evalAggregate_of_values (hcount : agg.func ≠ .count)
    (h : fieldValues py (refBinding agg.ref) (refField agg.ref) expression fieldOptional
      (rowsOf rowsets (refBinding agg.ref)) = .ok values) :
    evalAggregate py ops agg expression rowsets aggFieldType fieldOptional =
      if agg.func = .sum ∨ agg.func = .avg then
        evalSumAvg py ops agg.func values (refField agg.ref) expression aggFieldType
      else evalMinmax py ops agg.func values (refField agg.ref) expression := by
  rw [evalAggregate, if_neg hcount, h]
  rfl

theorem evalAggregate_of_error {e : AggFault} (hcount : agg.func ≠ .count)
    (h : fieldValues py (refBinding agg.ref) (refField agg.ref) expression fieldOptional
      (rowsOf rowsets (refBinding agg.ref)) = .error e) :
    evalAggregate py ops agg expression rowsets aggFieldType fieldOptional = .error e := by
  rw [evalAggregate, if_neg hcount, h]
  rfl

/-- Aggregates that agree both succeed or both fail. -/
theorem SameAggregate.exists_iff (h : SameAggregate py ops func field expression a b) :
    (∃ x, a = .ok x) ↔ ∃ y, b = .ok y := by
  cases a with
  | ok x =>
    cases b with
    | ok y => exact iff_of_true ⟨x, rfl⟩ ⟨y, rfl⟩
    | error e => exact h.elim
  | error e =>
    cases b with
    | ok y => exact h.elim
    | error e' => exact iff_of_false nofun nofun

/-- Sums of integers that no order of the rows changes. -/
theorem orderFree_of_same
    (hsame : ∀ other : RowSets,
      (rowsOf other (refBinding agg.ref)).Perm (rowsOf rowsets (refBinding agg.ref)) →
        SameAggregate py ops agg.func (refField agg.ref) expression
          (evalAggregate py ops agg expression rowsets aggFieldType fieldOptional)
          (evalAggregate py ops agg expression other aggFieldType fieldOptional)) :
    OrderFree py ops agg expression rowsets fieldOptional := by
  intro hfunc values ns hvalues hns
  have hcount : agg.func ≠ .count := by
    rcases hfunc with h | h
    · rw [h]
      decide
    · rw [h]
      decide
  refine (PartialSums.sumsWithin_congr_iff (by decide)).mp ?_
  intro ms hms
  by_cases hne : values = []
  · rw [hne, List.mapM_nil] at hns
    obtain rfl := pure_eq_ok.mp hns
    rw [List.perm_nil.mp hms]
  · -- the numbers in the other order are those of the rows in some order
    obtain ⟨values', hperm, hms'⟩ := mapM_perm_results hms hns
    obtain ⟨rows', hperm', hvalues'⟩ := fieldValues_perm_values hperm hvalues
    have hne' : values' ≠ [] := by
      rintro rfl
      exact hne (List.nil_perm.mp hperm)
    have hrows : rowsOf (rowsets.insert (refBinding agg.ref) rows') (refBinding agg.ref) =
        rows' := by
      rw [rowsOf, Std.ExtTreeMap.getElem?_insert_self, Option.getD_some]
    have hother := hsame (rowsets.insert (refBinding agg.ref) rows')
      (by rw [hrows]; exact hperm')
    rw [← hrows] at hvalues'
    rw [evalAggregate_of_values hcount hvalues, evalAggregate_of_values hcount hvalues',
      if_pos hfunc, if_pos hfunc] at hother
    rw [← exists_evalSumAvg_iff hne hns, ← exists_evalSumAvg_iff hne' hms']
    exact hother.exists_iff

/-- **The order of the rows** makes no difference iff the aggregate is none of integers, or every
order keeps the sums on the way in the range, or none does. -/
theorem aggregate_order_iff (py : Python) (ops : JsonOps) (agg : Aggregate) (expression : String)
    (rowsets : RowSets) (aggFieldType : Option String) (fieldOptional : Bool) :
    (∀ other : RowSets,
      (rowsOf other (refBinding agg.ref)).Perm (rowsOf rowsets (refBinding agg.ref)) →
        SameAggregate py ops agg.func (refField agg.ref) expression
          (evalAggregate py ops agg expression rowsets aggFieldType fieldOptional)
          (evalAggregate py ops agg expression other aggFieldType fieldOptional)) ↔
      OrderFree py ops agg expression rowsets fieldOptional := by
  refine ⟨orderFree_of_same, ?_⟩
  intro hfree other hperm
  by_cases hcount : agg.func = .count
  · have hsame : evalAggregate py ops agg expression other aggFieldType fieldOptional =
        evalAggregate py ops agg expression rowsets aggFieldType fieldOptional := by
      rw [evalAggregate, evalAggregate, if_pos hcount, if_pos hcount, hperm.length_eq]
    rw [hsame, evalAggregate, if_pos hcount, hcount, SameAggregate, if_neg (by decide)]
  · rcases fieldValues_of_perm hperm with
      ⟨values, values', hvalues, hvalues', hperm'⟩ | ⟨e, e', he, he'⟩
    · rw [evalAggregate_of_values hcount hvalues, evalAggregate_of_values hcount hvalues']
      by_cases hfunc : agg.func = .sum ∨ agg.func = .avg
      · rw [if_pos hfunc, if_pos hfunc]
        apply sameAggregate_sumAvg hfunc hperm'
        intro ns hns
        exact (PartialSums.sumsWithin_congr_iff (by decide)).mpr (hfree hfunc values ns hvalues hns)
      · rw [if_neg hfunc, if_neg hfunc]
        apply sameAggregate_minmax _ hperm'
        cases hcases : agg.func with
        | min => exact .inl rfl
        | max => exact .inr rfl
        | sum => exact absurd (.inl hcases) hfunc
        | avg => exact absurd (.inr hcases) hfunc
        | count => exact absurd hcases hcount
    · rw [evalAggregate_of_error hcount he, evalAggregate_of_error hcount he']
      trivial

/-! ### A sum that leaves the range on its way -/

/-- Rows of orders. -/
def amountRows (amounts : List Int) : RowSets :=
  (∅ : RowSets).insert "order" (amounts.map fun n => (∅ : Dict).insert "amount" (.int n))

/-- The sum of the amounts of orders. -/
def orderSum (amounts : List Int) : Except AggFault Json :=
  evalAggregate .ascii ⟨Json.plainStr, Json.plainStr, Json.plainEq⟩ ⟨.sum, ⟨"order.amount"⟩⟩
    "sum order.amount" (amountRows amounts) (some "Integer") false

theorem rowsOf_amountRows (amounts : List Int) : rowsOf (amountRows amounts) "order" =
    amounts.map fun n => (∅ : Dict).insert "amount" (.int n) := by
  rw [rowsOf, amountRows, Std.ExtTreeMap.getElem?_insert_self, Option.getD_some]

theorem fieldValues_amountRows (amounts : List Int) :
    fieldValues py "order" "amount" expression false
      (amounts.map fun n => (∅ : Dict).insert "amount" (.int n)) =
      .ok (amounts.map Json.int) := by
  induction amounts with
  | nil => rfl
  | cons n amounts ih =>
    rw [List.map_cons, fieldValues, ih, fieldValue, Std.ExtTreeMap.getElem?_insert_self]
    rfl

theorem mapM_wholeNumber (task : String) (ns : List Int) :
    (ns.map Json.int).mapM (wholeNumber py ops task field expression) = .ok ns := by
  induction ns with
  | nil => rfl
  | cons n ns ih =>
    rw [List.map_cons, List.mapM_cons, ih]
    rfl

theorem exists_orderSum_iff {amounts : List Int} :
    (∃ result, orderSum (n :: amounts) = .ok result) ↔
      PartialSums.SumsWithin int64Min int64Max 0 (n :: amounts) := by
  have hvalues := @fieldValues_amountRows .ascii "sum order.amount" (n :: amounts)
  rw [← rowsOf_amountRows] at hvalues
  have hcount : (⟨.sum, ⟨"order.amount"⟩⟩ : Aggregate).func ≠ .count := by decide
  rw [orderSum, evalAggregate_of_values hcount hvalues, if_pos (.inl rfl)]
  exact exists_evalSumAvg_iff nofun (mapM_wholeNumber _ _)

/-- The largest integer, one more and one less is no sum; with one less and one more it is. -/
theorem reordered_sum_fails :
    (rowsOf (amountRows [int64Max, -1, 1]) "order").Perm
      (rowsOf (amountRows [int64Max, 1, -1]) "order") ∧
    ¬SameAggregate .ascii ⟨Json.plainStr, Json.plainStr, Json.plainEq⟩ .sum "amount"
      "sum order.amount" (orderSum [int64Max, 1, -1]) (orderSum [int64Max, -1, 1]) := by
  constructor
  · rw [rowsOf_amountRows, rowsOf_amountRows]
    exact (List.Perm.swap 1 (-1) []).cons int64Max |>.map _
  · intro hsame
    have hwithin : PartialSums.SumsWithin int64Min int64Max 0 [int64Max, -1, 1] := by decide
    have hfails := exists_orderSum_iff.mp (hsame.exists_iff.mpr (exists_orderSum_iff.mpr hwithin))
    exact absurd hfails (by decide)

end Lnpl.Interp
