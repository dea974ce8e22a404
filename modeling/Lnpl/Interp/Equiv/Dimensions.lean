import Lnpl.Interp.Dimensions
import Lnpl.Lib.Results

/-!
# Arithmetic keeps its dimensions

Lowering and a run follow one algebra of dimensions exactly when a duration is all that a clause
combines with an instant, and all declarations of a reference agree on its dimension
(`dimensionSound_iff`).  A run step by step: an operand evaluates to what its values are, arithmetic
to what the algebra says, and a comparison of two equal dimensions stops on values only.
-/

namespace Lnpl.Interp

open Front (Python Dimension FieldDecl EntityDecl ArithOp)
open Lib

variable (rules : Rules) (scope : Front.Scope)

/-! ### The dimensions of lowering -/

variable {py : Python} {f : FieldDecl} {name text base condition binding field : String}
  {equality : Bool} {d l : Dimension} {r : Front.Ref} {v : Front.Value} {a : Front.Arith}
  {op : ArithOp} {e : EvalFault} {env : Scope} {o : Front.Operand} {t : Front.Comparison}
  {subject : Front.Subject} {cond : Front.Condition} {literal : Front.Lit}

/-- A base has no other dimension than its own, or that of a text. -/
theorem dimensionOf_eq_ok (h : scope.dimensionOf py f name text false equality = .ok d) :
    (d = .text ∧ equality = true ∧ (Front.textBases.contains (scope.base f.type) &&
      !Front.textEqualityExcludedBases.contains (scope.base f.type)) = true) ∨
    baseDimension (scope.base f.type) = some d := by
  unfold Front.Scope.dimensionOf at h
  simp only [Bool.false_and, Bool.false_eq_true, if_false] at h
  split_ifs at h with h1 h2 h3 h4 h5
  · cases h
  · left
    cases h
    simp only [Bool.and_eq_true] at h2 ⊢
    exact ⟨trivial, h2.1.1, h2.1.2, h2.2⟩
  all_goals first | (right; cases h; simp_all [baseDimension]) | cases h

/-- In an equality, what is declared as a text is one. -/
theorem dimensionOf_text (h : (Front.textBases.contains (scope.base f.type) &&
      !Front.textEqualityExcludedBases.contains (scope.base f.type)) = true) :
    scope.dimensionOf py f name text false true = .ok .text := by
  have hpassword : scope.base f.type ≠ "Password" := by
    intro hbase
    rw [hbase] at h
    simp [Front.textEqualityExcludedBases] at h
  unfold Front.Scope.dimensionOf
  simp only [Bool.false_and, Bool.false_eq_true, if_false, Bool.true_and, hpassword, decide_false,
    Bool.and_false]
  rw [if_pos h]

/-- The bases of quantities are no texts of an equality. -/
theorem not_text_of_baseDimension (h : baseDimension base = some d) :
    (Front.textBases.contains base && !Front.textEqualityExcludedBases.contains base) = false ∧
      d ≠ .text ∧ d ≠ .presenceAny := by
  unfold baseDimension at h
  split_ifs at h with h1 h2 h3
  all_goals
    cases h
    subst_vars
    simp [Front.textBases, Front.textEqualityExcludedBases]

variable {rules scope} {clause : Clause}

/-- The field behind a declared type. -/
theorem resolveField_of_declaredBase (h : clause.declaredBase rules scope name = some base) :
    ∃ f, scope.resolveField rules.py name clause.shown clause.subject false = .ok (some f) ∧
      scope.base f.type = base := by
  unfold Clause.declaredBase at h
  split at h
  · next f hf => exact ⟨f, hf, by simpa using h⟩
  · cases h

variable {x : Option Dimension} {n : Int} {closest : String → List String → Option String}
  {side : Bool × Front.Value}

/-- A reference has the dimension of its declared type, or is a text in an equality. -/
theorem dimension_ref (hbase : clause.declaredBase rules scope r.name = some base)
    (h : clause.dimension rules scope equality (.operand (.ref r)) = .ok x) :
    ∃ d, x = some d ∧ ((d = .text ∧ equality = true ∧
      clause.isText rules scope (.operand (.ref r)) = true) ∨ baseDimension base = some d) := by
  obtain ⟨f, hf, rfl⟩ := resolveField_of_declaredBase hbase
  have htext : clause.isText rules scope (.operand (.ref r)) =
      (Front.textBases.contains (scope.base f.type) &&
        !Front.textEqualityExcludedBases.contains (scope.base f.type)) := by
    simp [Clause.isText, Front.Value.ref?, hbase]
  simp only [Clause.dimension, Front.Scope.valueDimension, Front.Scope.operandDimension,
    Front.Scope.checkReference, hf, bind_eq_ok] at h
  obtain ⟨g, hg, h⟩ := h
  cases hg
  obtain ⟨d, hd, rfl⟩ := by simpa only [bind_eq_ok, pure_eq_ok] using h
  rw [htext]
  exact ⟨d, rfl, dimensionOf_eq_ok scope hd⟩

/-- What is declared as a text is one in an equality. -/
theorem dimension_of_isText (h : clause.isText rules scope v = true) :
    clause.dimension rules scope true v = .ok (some .text) := by
  match v, h with
  | .operand (.ref r), h =>
    cases hbase : clause.declaredBase rules scope r.name with
    | none => simp [Clause.isText, Front.Value.ref?, hbase] at h
    | some base =>
      obtain ⟨f, hf, rfl⟩ := resolveField_of_declaredBase hbase
      simp only [Clause.isText, Front.Value.ref?, Option.bind_some, hbase] at h
      simp only [Clause.dimension, Front.Scope.valueDimension, Front.Scope.operandDimension,
        Front.Scope.checkReference, hf]
      show (do return some (← scope.dimensionOf rules.py f r.name clause.shown false true)) = _
      rw [dimensionOf_text scope h]
      rfl

/-! ### Arithmetic -/

/-- The dimension of an operand that a clause computes with. -/
def Computes (d : Dimension) : Prop := d = .scalar ∨ d = .instant ∨ d = .money

theorem computes_of_baseDimension (h : baseDimension base = some d) : Computes d := by
  unfold baseDimension at h
  split_ifs at h
  all_goals
    cases h
    simp [Computes]

/-- What lowering accepts is the algebra, but for an instant with a number. -/
theorem algebra_of_arithDimension {left right : Dimension} (hleft : Computes left)
    (hright : Computes right) (h : scope.arithDimension py text a left right = .ok d)
    (hduration : left = .instant → right = .scalar → a.op = .add ∨ a.op = .sub)
    (hadd : left = .scalar → right = .instant → a.op = .add) :
    algebra a.op left right = some d := by
  obtain ⟨l, op, r⟩ := a
  unfold Front.Scope.arithDimension at h
  rcases hleft with rfl | rfl | rfl <;> rcases hright with rfl | rfl | rfl <;> cases op <;>
    simp_all [algebra, Front.refuse]

theorem computes_of_algebra {r : Dimension} (hl : Computes l) (hr : Computes r)
    (h : algebra op l r = some d) : Computes d := by
  rcases hl with rfl | rfl | rfl <;> rcases hr with rfl | rfl | rfl <;> cases op <;> cases h <;>
    simp [Computes]

/-! ### What a run computes -/

/-- An evaluation yields a value of the dimension, or nothing, or stops on the values. -/
structure Yields (d : Dimension) (x : Except EvalFault (Option Quantity)) : Prop where
  fault : ∀ e, x = .error e → e.cause.ofValues = true
  money : ∀ q, x = .ok (some q) → q.isMoney = decide (d = .money)

theorem Yields.absent : Yields d (.ok none) := by
  constructor
  · intro e he
    cases he
  · intro q hq
    cases hq

theorem Yields.value {q : Quantity} (h : q.isMoney = decide (d = .money)) :
    Yields d (.ok (some q)) := by
  constructor
  · intro e he
    cases he
  · intro q' hq
    cases hq
    exact h

theorem Yields.stop (h : e.cause.ofValues = true) : Yields d (.error e) := by
  constructor
  · intro e' he
    cases he
    exact h
  · intro q hq
    cases hq

/-- `_checked` stops on the range only. -/
theorem checked_fault (h : checked py n name condition = .error e) : e.cause.ofValues = true := by
  unfold checked at h
  split_ifs at h
  cases h
  rfl

/-- What `money.py` raises is about the values. -/
theorem inCondition_fault {α : Type} {x : Except MoneyFault α}
    (h : inCondition py condition x = .error e) : e.cause.ofValues = true := by
  cases x with
  | ok a => cases h
  | error fault =>
    cases h
    cases fault <;> rfl

/-- A number that is in range. -/
theorem yields_number (hd : d ≠ .money) :
    Yields d (some <$> (Quantity.number <$> checked py n name condition)) := by
  cases h : checked py n name condition with
  | error e => exact Yields.stop (checked_fault h)
  | ok m => exact Yields.value (by simp [Quantity.isMoney, hd])

/-- A value of a dimension evaluates to it. -/
theorem yields_raw {raw : Json} (h : rawDimension rules raw = some d) :
    Yields d (some <$> evalRaw rules.py rules.ops name condition raw) := by
  cases raw with
  | null => cases h
  | float text => cases h
  | arr items => cases h
  | bool b =>
    cases h
    exact Yields.value rfl
  | int n =>
    cases h
    exact yields_number (by decide)
  | str s =>
    simp only [rawDimension] at h
    simp only [evalRaw]
    split_ifs at h ⊢ with hinstant hnumber
    · cases h
      cases hms : encodeInstant rules.py s name with
      | ok ms => exact yields_number (by decide)
      | error message => exact Yields.stop rfl
    · cases h
      obtain ⟨n, hn⟩ := Option.isSome_iff_exists.1 hnumber
      rw [hn]
      exact yields_number (by decide)
  | obj fields =>
    simp only [rawDimension] at h
    simp only [evalRaw]
    split_ifs at h with hmoney
    cases h
    rw [Bool.and_eq_true, Option.isSome_iff_exists, Option.isSome_iff_exists] at hmoney
    obtain ⟨⟨amount, hamount⟩, currency, hcurrency⟩ := hmoney
    simp only [hamount, hcurrency]
    cases hcode : encodeMoney rules.py rules.ops amount currency with
    | ok pair => exact Yields.value rfl
    | error fault => cases fault <;> exact Yields.stop rfl

/-- An operand evaluates to the dimension of its value. -/
theorem yields_operand (h : ∀ r, o = .ref r → (resolveReference (refOf r.name) env).isNull = false →
      rawDimension rules (resolveReference (refOf r.name) env) = some d)
    (hlit : ∀ l, o = .lit l → d = .scalar) :
    Yields d (evalOperand rules.py rules.ops condition env o) := by
  cases o with
  | lit l =>
    cases hlit l rfl
    exact Yields.value rfl
  | ref r =>
    have hraw := h r rfl
    simp only [evalOperand]
    split
    · exact Yields.absent
    · next hnull =>
      have hpresent : (resolveReference (refOf r.name) env).isNull = false := by
        cases hres : resolveReference (refOf r.name) env <;> first | rfl | exact absurd hres hnull
      exact yields_raw (hraw hpresent)

/-- Two numbers make a number; the range and a zero divisor are what stops it. -/
theorem evalArith_fault {left right : Int} (h : evalArith py a left right condition = .error e) :
    e.cause.ofValues = true := by
  unfold evalArith at h
  dsimp only at h
  split at h
  · exact checked_fault h
  · exact checked_fault h
  · exact checked_fault h
  · split_ifs at h
    · cases h
      rfl
    · exact checked_fault h

/-- An amount that is in range. -/
theorem yields_amount {x : Except EvalFault Pair}
    (h : ∀ e, x = .error e → e.cause.ofValues = true) :
    Yields .money (some <$> (do
      let (minor, currency) ← x
      let minor ← checked py minor name condition
      return Quantity.money minor currency)) := by
  cases x with
  | error fault => exact Yields.stop (h _ rfl)
  | ok pair =>
    obtain ⟨minor, currency⟩ := pair
    simp only [bind, Except.bind]
    cases hc : checked py minor name condition with
    | error fault => exact Yields.stop (checked_fault hc)
    | ok n => exact Yields.value rfl

/-- An amount with an amount, or with a number, as the algebra has it. -/
theorem yields_moneyArith {py : Python} {a : Front.Arith} {left right : Quantity}
    {condition : String} {l r d : Dimension} (hd : algebra a.op l r = some d)
    (hleft : left.isMoney = decide (l = .money)) (hright : right.isMoney = decide (r = .money))
    (hmoney : left.isMoney = true ∨ right.isMoney = true) :
    Yields d (some <$> evalMoneyArith py a left right condition) := by
  obtain ⟨lo, op, ro⟩ := a
  unfold evalMoneyArith
  cases left with
  | money m code =>
    have hl : l = .money := by simpa [Quantity.isMoney] using hleft
    subst hl
    cases right with
    | money m' code' =>
      have hr : r = .money := by simpa [Quantity.isMoney] using hright
      subst hr
      cases op <;> cases hd <;> exact yields_amount fun e he => inCondition_fault he
    | number n =>
      have hr : r ≠ .money := by simpa [Quantity.isMoney] using hright
      -- a multiple is the only value of an amount with a number
      cases op <;> cases r <;> first | exact absurd rfl hr | cases hd
      exact yields_amount fun e he => inCondition_fault he
  | number n =>
    have hl : l ≠ .money := by simpa [Quantity.isMoney] using hleft
    cases right with
    | money m code =>
      have hr : r = .money := by simpa [Quantity.isMoney] using hright
      subst hr
      cases op <;> cases l <;> first | exact absurd rfl hl | cases hd
      exact yields_amount fun e he => inCondition_fault he
    | number n' => simp [Quantity.isMoney] at hmoney

/-- Of no amounts, the algebra makes none. -/
theorem ne_money_of_algebra {r : Dimension} (h : algebra op l r = some d) (hl : l ≠ .money)
    (hr : r ≠ .money) : d ≠ .money := by
  rintro rfl
  cases op <;> cases l <;> cases r <;> simp_all [algebra]

/-- **Arithmetic follows the algebra**: of operands that evaluate to their dimensions, a value
evaluates to what the algebra makes of them. -/
theorem yields_arith {r : Dimension} (hd : algebra a.op l r = some d)
    (hleft : Yields l (evalOperand rules.py rules.ops condition env a.left))
    (hright : Yields r (evalOperand rules.py rules.ops condition env a.right)) :
    Yields d (evalValue rules.py rules.ops condition env (.arith a)) := by
  simp only [evalValue]
  cases hl : evalOperand rules.py rules.ops condition env a.left with
  | error e => exact Yields.stop (hleft.fault e hl)
  | ok left =>
  cases hr : evalOperand rules.py rules.ops condition env a.right with
  | error e => exact Yields.stop (hright.fault e hr)
  | ok right =>
  simp only [bind, Except.bind]
  cases left with
  | none => exact Yields.absent
  | some lq =>
  cases right with
  | none => cases lq <;> exact Yields.absent
  | some rq =>
    have hlq := hleft.money lq hl
    have hrq := hright.money rq hr
    cases lq with
    | money m code =>
      exact @yields_moneyArith rules.py a _ _ condition l r d hd hlq hrq (Or.inl rfl)
    | number n =>
    cases rq with
    | money m code =>
      exact @yields_moneyArith rules.py a _ _ condition l r d hd hlq hrq (Or.inr rfl)
    | number n' =>
      have hne : d ≠ .money := by
        apply ne_money_of_algebra hd
        · simpa [Quantity.isMoney] using hlq
        · simpa [Quantity.isMoney] using hrq
      dsimp only
      cases hx : evalArith rules.py a n n' condition with
      | error e => exact Yields.stop (evalArith_fault hx)
      | ok m => exact Yields.value (by simp [Quantity.isMoney, hne])

/-! ### Comparisons -/

/-- Values of one dimension are compared, or stop on the values. -/
theorem comparison_fault {names : List String}
    (hleft : Yields d (evalValue rules.py rules.ops condition env t.left))
    (hright : Yields d (evalValue rules.py rules.ops condition env t.right))
    (hnumbers : isTextTerm names t = false)
    (h : comparisonHolds rules.py rules.ops names condition env t = .error e) :
    e.cause.ofValues = true := by
  rw [comparisonHolds, if_neg (by simp [hnumbers])] at h
  cases hl : evalValue rules.py rules.ops condition env t.left with
  | error fault =>
    rw [hl] at h
    cases h
    exact hleft.fault _ hl
  | ok left =>
  cases hr : evalValue rules.py rules.ops condition env t.right with
  | error fault =>
    rw [hl, hr] at h
    cases h
    exact hright.fault _ hr
  | ok right =>
  rw [hl, hr] at h
  simp only [bind, Except.bind] at h
  cases left with
  | none => cases h
  | some lq =>
  cases right with
  | none => cases lq <;> cases h
  | some rq =>
    have hsame : lq.isMoney = rq.isMoney := by
      rw [hleft.money lq hl, hright.money rq hr]
    cases lq with
    | number n =>
      cases rq with
      | number n' => cases h
      | money m code => cases hsame
    | money m code =>
      cases rq with
      | number n => cases hsame
      | money m' code' =>
        dsimp only at h
        cases hx : inCondition rules.py condition (compareMoney (m, code) (m', code')) with
        | error fault =>
          have hfault := inCondition_fault hx
          rw [hx] at h
          split at h <;> cases h
          exact hfault
        | ok n =>
          rw [hx] at h
          split at h <;> cases h

/-- A text equality of two references does not stop. -/
theorem textComparison_ok (py : Python) (ops : JsonOps) (condition : String) (env : Scope)
    (hleft : t.left.ref?.isSome = true) (hright : t.right.ref?.isSome = true) :
    ∃ holds, textComparisonHolds py ops condition env t = .ok holds := by
  have hside : ∀ v : Front.Value, v.ref?.isSome = true →
      ∃ json, textOf py condition env v = .ok json := by
    intro v hv
    match v, hv with
    | .operand (.ref r), _ =>
      simp only [textOf]
      split
      · exact ⟨_, rfl⟩
      · exact ⟨_, rfl⟩
  obtain ⟨left, hl⟩ := hside t.left hleft
  obtain ⟨right, hr⟩ := hside t.right hright
  simp only [textComparisonHolds, hl, hr]
  exact ⟨_, rfl⟩

/-! ### Accepted clauses -/

/-- What one accepted comparison is: a text equality of two references, or two values that are no
texts, of one dimension as far as it is known. -/
theorem checkTerm_eq_ok {ns : List String}
    (h : scope.checkTerm py closest text subject t = .ok ns) :
    ∃ left right, scope.valueDimension py text subject t.op.isEquality t.left = .ok left ∧
      scope.valueDimension py text subject t.op.isEquality t.right = .ok right ∧
      ((left = some .text ∨ right = some .text) ∧ ns = t.refs ∧
          (∃ l, t.left = .operand l) ∧ (∃ r, t.right = .operand r) ∧
          (left = none ∨ left = some .text) ∧ (right = none ∨ right = some .text) ∨
        left ≠ some .text ∧ right ≠ some .text ∧ ns = [] ∧
          ∀ l r, left = some l → right = some r → l = r) := by
  have hside : ∀ v dim, scope.checkTextSide py text t v dim = .ok () →
      (∃ o, v = .operand o) ∧ (dim = none ∨ dim = some .text) := by
    intro v dim hv
    cases v with
    | arith a => cases hv
    | operand o =>
      simp only [Front.Scope.checkTextSide] at hv
      split_ifs at hv with hdim
      · exact ⟨⟨o, rfl⟩, hdim⟩
      · cases hv
  unfold Front.Scope.checkTerm at h
  rw [bind_eq_ok] at h
  obtain ⟨left, hleft, h⟩ := h
  rw [bind_eq_ok] at h
  obtain ⟨right, hright, h⟩ := h
  refine ⟨left, right, hleft, hright, ?_⟩
  split_ifs at h with htext
  · left
    unfold Front.Scope.checkTextEqualityTerm at h
    simp only [bind_eq_ok] at h
    obtain ⟨_, hl, _, hr, leftType, _, rightType, _, h⟩ := h
    have hrefs : ns = t.refs := by
      split at h
      · split_ifs at h with hbase
        · cases h
        · simp only [bind_eq_ok] at h
          obtain ⟨_, _, _, _, h⟩ := h
          exact (pure_eq_ok.1 h).symm
      · simp only [bind_eq_ok] at h
        obtain ⟨_, _, _, _, h⟩ := h
        exact (pure_eq_ok.1 h).symm
    obtain ⟨hlop, hldim⟩ := hside _ _ hl
    obtain ⟨hrop, hrdim⟩ := hside _ _ hr
    exact ⟨htext, hrefs, hlop, hrop, hldim, hrdim⟩
  · right
    rw [not_or] at htext
    refine ⟨htext.1, htext.2, ?_⟩
    split at h
    · next l r =>
      by_cases hne : l ≠ r
      · rw [if_pos hne] at h
        cases h
      · rw [if_neg hne] at h
        refine ⟨(pure_eq_ok.1 h).symm, ?_⟩
        rintro _ _ ⟨⟩ ⟨⟩
        exact not_not.1 hne
    · next hnone =>
      refine ⟨(pure_eq_ok.1 h).symm, ?_⟩
      intro l r hl hr
      exact absurd hr (hnone l r hl)

/-- An accepted guard has accepted comparisons, and records their names. -/
theorem checkCondition_comparisons {names : List String}
    (h : scope.checkCondition py closest text cond = .ok names) :
    ∃ nss, cond.comparisons.mapM (scope.checkTerm py closest text .guard) = .ok nss ∧
      names = nss.flatten := by
  unfold Front.Scope.checkCondition at h
  simp only [bind_eq_ok] at h
  obtain ⟨_, _, _, _, _, _, names', hnames, _, _, _, _, h⟩ := h
  cases pure_eq_ok.1 h
  unfold Front.Scope.checkDimensions at hnames
  rw [bind_eq_ok] at hnames
  obtain ⟨nss, hnss, hflat⟩ := hnames
  exact ⟨nss, hnss, (pure_eq_ok.1 hflat).symm⟩

/-- The value of an accepted assignment has a dimension. -/
theorem checkAssignment_value {lower : String → String} {lineno : Nat} {target : String}
    {rhs : Front.Value} (h : scope.checkAssignment py lower lineno target rhs = .ok ()) :
    ∃ d, scope.valueDimension py ("set " ++ target ++ " to " ++ rhs.toText) .assignment false rhs =
      .ok d := by
  unfold Front.Scope.checkAssignment at h
  rw [bind_eq_ok] at h
  obtain ⟨declared, _, h⟩ := h
  split at h
  · split_ifs at h with htext
    · cases h
    · simp only [bind_eq_ok] at h
      obtain ⟨_, _, _, _, d, hd, _⟩ := h
      exact ⟨d, hd⟩
  · simp only [bind_eq_ok] at h
    obtain ⟨_, _, _, _, d, hd, _⟩ := h
    exact ⟨d, hd⟩

/-! ### Subterms -/

/-- The sides of a guard are those of its comparisons of quantities. -/
theorem mem_sides_guard :
    side ∈ (Clause.guard text cond).sides rules scope ↔
      ∃ t ∈ cond.comparisons, (Clause.guard text cond).comparesText rules scope t = false ∧
        (side = (t.op.isEquality, t.left) ∨ side = (t.op.isEquality, t.right)) := by
  simp only [Clause.sides, List.mem_flatMap, List.mem_filter, Bool.not_eq_true', List.mem_cons,
    List.not_mem_nil, or_false, and_assoc]

/-- A subterm is a side, or an operand of one. -/
theorem mem_subterms :
    side ∈ clause.subterms rules scope ↔ side ∈ clause.sides rules scope ∨
      ∃ equality a, (equality, .arith a) ∈ clause.sides rules scope ∧
        (side = (false, .operand a.left) ∨ side = (false, .operand a.right)) := by
  simp only [Clause.subterms, List.mem_flatMap]
  constructor
  · rintro ⟨⟨equality, v⟩, hv, hside⟩
    cases v with
    | operand o =>
      left
      rw [List.mem_singleton.1 hside]
      exact hv
    | arith a =>
      simp only [Interp.subterms, List.mem_cons, List.not_mem_nil, or_false] at hside
      rcases hside with rfl | hside
      · exact Or.inl hv
      · exact Or.inr ⟨equality, a, hv, hside⟩
  · rintro (hside | ⟨equality, a, hv, hside⟩)
    · refine ⟨side, hside, ?_⟩
      obtain ⟨equality, v⟩ := side
      cases v <;> simp [Interp.subterms]
    · refine ⟨_, hv, ?_⟩
      simp only [Interp.subterms, List.mem_cons, List.not_mem_nil, or_false]
      exact Or.inr hside

/-- No subterm is a text. -/
theorem isText_of_mem_subterms (h : (equality, v) ∈ clause.subterms rules scope)
    (heq : equality = true) :
    clause.isText rules scope v = false := by
  subst heq
  rcases mem_subterms.1 h with hside | ⟨_, _, _, hside⟩
  · cases clause with
    | assignment lineno target rhs => simp [Clause.sides] at hside
    | guard text cond =>
      obtain ⟨t, _, htext, hv⟩ := mem_sides_guard.1 hside
      simp only [Clause.comparesText, List.any_cons, List.any_nil, Bool.or_false] at htext
      rcases hv with hv | hv
      · obtain ⟨hop, rfl⟩ := Prod.mk.inj hv
        rw [← hop, Bool.true_and, Bool.or_eq_false_iff] at htext
        exact htext.1
      · obtain ⟨hop, rfl⟩ := Prod.mk.inj hv
        rw [← hop, Bool.true_and, Bool.or_eq_false_iff] at htext
        exact htext.2
  · simp at hside

variable {names : List String}

/-- Lowering has given a dimension to each side of an accepted clause. -/
theorem exists_dimension_of_side (h : clause.check rules scope = .ok names)
    (hside : (equality, v) ∈ clause.sides rules scope) :
    ∃ x, clause.dimension rules scope equality v = .ok x := by
  cases clause with
  | assignment lineno target rhs =>
    simp only [Clause.sides, List.mem_singleton, Prod.mk.injEq] at hside
    obtain ⟨rfl, rfl⟩ := hside
    simp only [Clause.check, bind_eq_ok] at h
    obtain ⟨_, hcheck, _⟩ := h
    exact checkAssignment_value hcheck
  | guard text cond =>
    obtain ⟨t, ht, _, hv⟩ := mem_sides_guard.1 hside
    obtain ⟨nss, hnss, _⟩ := checkCondition_comparisons h
    obtain ⟨ns, _, hterm⟩ := exists_of_mapM hnss ht
    obtain ⟨left, right, hleft, hright, _⟩ := checkTerm_eq_ok hterm
    rcases hv with hv | hv
    · obtain ⟨rfl, rfl⟩ := Prod.mk.inj hv
      exact ⟨left, hleft⟩
    · obtain ⟨rfl, rfl⟩ := Prod.mk.inj hv
      exact ⟨right, hright⟩

/-- The operands of arithmetic that has a dimension have theirs. -/
theorem exists_dimension_of_arith (h : clause.dimension rules scope equality (.arith a) = .ok x) :
    ∃ left right, clause.dimension rules scope false (.operand a.left) = .ok left ∧
      clause.dimension rules scope false (.operand a.right) = .ok right ∧
      ∀ l r, left = some l → right = some r →
        ∃ d, x = some d ∧ scope.arithDimension rules.py clause.shown a l r = .ok d := by
  simp only [Clause.dimension, Front.Scope.valueDimension, bind_eq_ok] at h
  obtain ⟨left, hleft, right, hright, h⟩ := h
  refine ⟨left, right, hleft, hright, ?_⟩
  rintro l r rfl rfl
  simp only [bind_eq_ok] at h
  obtain ⟨d, hd, h⟩ := h
  exact ⟨d, (pure_eq_ok.1 h).symm, hd⟩

/-- Lowering has given a dimension to each subterm of an accepted clause. -/
theorem exists_dimension (h : clause.check rules scope = .ok names)
    (hv : (equality, v) ∈ clause.subterms rules scope) :
    ∃ x, clause.dimension rules scope equality v = .ok x := by
  rcases mem_subterms.1 hv with hside | ⟨_, a, hside, hv⟩
  · exact exists_dimension_of_side h hside
  · obtain ⟨x, hx⟩ := exists_dimension_of_side h hside
    obtain ⟨left, right, hleft, hright, _⟩ := exists_dimension_of_arith hx
    rcases hv with hv | hv
    · obtain ⟨rfl, rfl⟩ := Prod.mk.inj hv
      exact ⟨left, hleft⟩
    · obtain ⟨rfl, rfl⟩ := Prod.mk.inj hv
      exact ⟨right, hright⟩

/-- A declared operand has the dimension of its type; a literal is a number. -/
theorem operand_dimension (h : clause.check rules scope = .ok names)
    (hresolved : clause.Resolved rules scope)
    (ho : (equality, .operand o) ∈ clause.subterms rules scope) :
    ∃ d, clause.dimension rules scope equality (.operand o) = .ok (some d) ∧ Computes d ∧
      (∀ l, o = .lit l → d = .scalar) ∧
      ∀ r, o = .ref r → ∃ base, clause.declaredBase rules scope r.name = some base ∧
        baseDimension base = some d := by
  cases o with
  | lit l =>
    refine ⟨.scalar, rfl, Or.inl rfl, fun _ _ => rfl, ?_⟩
    intro r hr
    cases hr
  | ref r =>
    obtain ⟨base, hbase⟩ := Option.isSome_iff_exists.1 (hresolved equality r ho)
    obtain ⟨x, hx⟩ := exists_dimension h ho
    obtain ⟨d, rfl, hd⟩ := dimension_ref hbase hx
    have hquantity : baseDimension base = some d := by
      rcases hd with ⟨_, heq, htext⟩ | hd
      · rw [isText_of_mem_subterms ho heq] at htext
        cases htext
      · exact hd
    refine ⟨d, hx, computes_of_baseDimension hquantity, ?_, ?_⟩
    · intro l hl
      cases hl
    · rintro _ ⟨⟩
      exact ⟨base, hbase, hquantity⟩

/-- The dimensions of the operands of accepted arithmetic, and its own. -/
theorem arith_dimension (h : clause.check rules scope = .ok names)
    (hresolved : clause.Resolved rules scope)
    (ha : (equality, .arith a) ∈ clause.sides rules scope) :
    ∃ l r d, clause.dimension rules scope false (.operand a.left) = .ok (some l) ∧
      clause.dimension rules scope false (.operand a.right) = .ok (some r) ∧
      clause.dimension rules scope equality (.arith a) = .ok (some d) ∧
      Computes l ∧ Computes r ∧
      scope.arithDimension rules.py clause.shown a l r = .ok d := by
  have hleft : (false, .operand a.left) ∈ clause.subterms rules scope :=
    mem_subterms.2 (Or.inr ⟨equality, a, ha, Or.inl rfl⟩)
  have hright : (false, .operand a.right) ∈ clause.subterms rules scope :=
    mem_subterms.2 (Or.inr ⟨equality, a, ha, Or.inr rfl⟩)
  obtain ⟨l, hl, hlc, _⟩ := operand_dimension h hresolved hleft
  obtain ⟨r, hr, hrc, _⟩ := operand_dimension h hresolved hright
  obtain ⟨x, hx⟩ := exists_dimension_of_side h ha
  obtain ⟨left, right, hl', hr', hd⟩ := exists_dimension_of_arith hx
  rw [hl] at hl'
  rw [hr] at hr'
  cases hl'
  cases hr'
  obtain ⟨d, rfl, harith⟩ := hd l r rfl rfl
  exact ⟨l, r, d, hl, hr, hx, hlc, hrc, harith⟩

/-! ### Values of a run -/

/-- The field that a reference resolves to is one of its declarations. -/
theorem exists_declaration (h : clause.declaredBase rules scope name = some base) :
    ∃ binding field, Front.partitionName name = some (binding, field) ∧
      ∃ f ∈ declarations scope binding field, scope.base f.type = base := by
  have hnamed : ∀ {fields : List FieldDecl} {field : String} {f : FieldDecl},
      Front.fieldNamed fields field = some f → f ∈ fields ∧ f.name = field := by
    intro fields field f hf
    have hmem := List.mem_of_find?_eq_some hf
    have hname := List.find?_some hf
    exact ⟨List.mem_reverse.1 hmem, by simpa using hname⟩
  have hdeclared : ∀ {entities : List EntityDecl} {field : String} {e : EntityDecl} {f : FieldDecl},
      e ∈ entities → f ∈ e.fields → f.name = field → f ∈ declaredIn entities field := by
    intro entities field e f he hf hname
    exact List.mem_flatMap.2 ⟨e, he, List.mem_filter.2 ⟨hf, by simpa using hname⟩⟩
  obtain ⟨f, hf, rfl⟩ := resolveField_of_declaredBase h
  unfold Front.Scope.resolveField at hf
  dsimp only at hf
  split at hf
  · cases hf
  · next binding field hpart =>
    refine ⟨binding, field, hpart, f, ?_, rfl⟩
    unfold declarations
    split_ifs at hf ⊢ with hpayload hcaller hfield hnetwork hor hnone
    · split at hf
      · next g hg =>
        cases hf
        obtain ⟨hmem, hname⟩ := hnamed hg
        obtain ⟨e, he, hfe⟩ := List.mem_flatMap.1 hmem
        exact hdeclared he hfe hname
      · cases hf
    any_goals cases hf
    · simp_all
    · cases hcreate : scope.createBindings.lookup binding with
      | some entity =>
        simp only [hcreate] at hf
        split at hf
        · next g hg =>
          cases hf
          obtain ⟨hmem, hname⟩ := hnamed hg
          exact hdeclared (List.mem_singleton_self entity) hmem hname
        · cases hf
      | none =>
        simp only [hcreate] at hf
        split at hf
        · cases hf
        · next entity hentity =>
          split at hf
          · cases hf
          · next g hg =>
            split_ifs at hf with hread
            · cases hf
              obtain ⟨hmem, hname⟩ := hnamed hg
              have he := List.mem_of_find?_eq_some hentity
              have hbinding := List.find?_some hentity
              refine hdeclared (List.mem_filter.2 ⟨List.mem_reverse.1 he, ?_⟩) hmem hname
              rw [Bool.and_eq_true]
              exact ⟨hbinding, hread⟩
            · cases hf

/-- What a reference resolves to in a typed scope has the dimension that it is declared with. -/
theorem rawDimension_of_typed (hdim : Dimensional rules scope clause)
    (htyped : Typed rules scope env)
    (hr : (equality, .operand (.ref r)) ∈ clause.subterms rules scope)
    (hbase : clause.declaredBase rules scope r.name = some base)
    (hpresent : (resolveReference (refOf r.name) env).isNull = false) :
    rawDimension rules (resolveReference (refOf r.name) env) = baseDimension base := by
  obtain ⟨binding, field, hpart, f, hf, _⟩ := exists_declaration hbase
  have href : refOf r.name = .qualified binding field := by simp [refOf, hpart]
  rw [href] at hpresent ⊢
  obtain ⟨g, hg, hadmits⟩ := htyped binding field (List.ne_nil_of_mem hf) hpresent
  exact hdim.declarations equality r hr base hbase binding field hpart g hg _ hadmits

section

variable (h : clause.check rules scope = .ok names)
include h

section

variable (hresolved : clause.Resolved rules scope)
include hresolved

/-- An operand evaluates to the dimension that lowering gives it. -/
theorem operand_sound (hdim : Dimensional rules scope clause) (htyped : Typed rules scope env)
    (ho : (equality, .operand o) ∈ clause.subterms rules scope)
    (hd : clause.dimension rules scope equality (.operand o) = .ok (some d)) :
    (∀ condition, Yields d (evalOperand rules.py rules.ops condition env o)) ∧
      (Present env (.operand o) → operandDimension rules env o = some d) := by
  obtain ⟨d', hd', _, hlit, href⟩ := operand_dimension h hresolved ho
  rw [hd] at hd'
  cases hd'
  have hraw : ∀ r, o = .ref r → (resolveReference (refOf r.name) env).isNull = false →
      rawDimension rules (resolveReference (refOf r.name) env) = some d := by
    rintro r rfl hpresent
    obtain ⟨base, hbase, hbased⟩ := href r rfl
    rw [rawDimension_of_typed hdim htyped ho hbase hpresent, hbased]
  constructor
  · intro condition
    exact yields_operand hraw hlit
  · intro hpresent
    cases o with
    | lit l =>
      rw [hlit l rfl]
      rfl
    | ref r =>
      apply hraw r rfl
      exact hpresent r.name (List.mem_singleton_self r.name)

/-- What is declared as an instant has the dimension of one. -/
theorem isInstant_iff (ho : (false, .operand o) ∈ clause.subterms rules scope)
    (hd : clause.dimension rules scope false (.operand o) = .ok (some d)) :
    clause.IsInstant rules scope o ↔ d = .instant := by
  obtain ⟨d', hd', _, hlit, href⟩ := operand_dimension h hresolved ho
  rw [hd] at hd'
  cases hd'
  cases o with
  | lit lit =>
    rw [hlit lit rfl]
    simp [Clause.IsInstant]
  | ref r =>
    obtain ⟨base, hbase, hdimension⟩ := href r rfl
    simp only [Clause.IsInstant, hbase, Option.some.injEq]
    unfold baseDimension at hdimension
    split_ifs at hdimension with h1 h2 h3 <;> cases hdimension <;> simp_all

/-- The algebra has the dimension that lowering gives to arithmetic. -/
theorem algebra_of_dimensional (hdim : Dimensional rules scope clause)
    (ha : (equality, .arith a) ∈ clause.sides rules scope) {r : Dimension}
    (hl : clause.dimension rules scope false (.operand a.left) = .ok (some l))
    (hr : clause.dimension rules scope false (.operand a.right) = .ok (some r))
    (hd : clause.dimension rules scope equality (.arith a) = .ok (some d)) :
    algebra a.op l r = some d := by
  obtain ⟨l', r', d', hl', hr', hd', hlc, hrc, harith⟩ := arith_dimension h hresolved ha
  rw [hl] at hl'
  rw [hr] at hr'
  rw [hd] at hd'
  cases hl'
  cases hr'
  cases hd'
  have hleft := isInstant_iff h hresolved
    (mem_subterms.2 (Or.inr ⟨equality, a, ha, Or.inl rfl⟩)) hl
  have hright := isInstant_iff h hresolved
    (mem_subterms.2 (Or.inr ⟨equality, a, ha, Or.inr rfl⟩)) hr
  obtain ⟨hduration, hadd⟩ := hdim.instants equality a ha
  apply algebra_of_arithDimension hlc hrc harith
  · rintro rfl rfl
    exact hduration ⟨hleft.2 rfl, fun hi => absurd (hright.1 hi) (by decide)⟩
  · rintro rfl rfl
    exact hadd ⟨fun hi => absurd (hleft.1 hi) (by decide), hright.2 rfl⟩

/-- **Subterms are sound**: a subterm of an accepted clause has a dimension, and evaluates to it. -/
theorem subterm_sound (hdim : Dimensional rules scope clause) (htyped : Typed rules scope env)
    (hv : (equality, v) ∈ clause.subterms rules scope) :
    ∃ d, clause.dimension rules scope equality v = .ok (some d) ∧ Computes d ∧
      (∀ condition, Yields d (evalValue rules.py rules.ops condition env v)) ∧
      (Present env v → termDimension rules env v = some d) := by
  cases v with
  | operand o =>
    obtain ⟨d, hd, hcomputes, _⟩ := operand_dimension h hresolved hv
    obtain ⟨hyields, hterm⟩ := operand_sound h hresolved hdim htyped hv hd
    exact ⟨d, hd, hcomputes, hyields, hterm⟩
  | arith a =>
    have hside : (equality, .arith a) ∈ clause.sides rules scope := by
      rcases mem_subterms.1 hv with hside | ⟨_, _, _, hside⟩
      · exact hside
      · simp at hside
    obtain ⟨l, r, d, hl, hr, hd, hlc, hrc, harith⟩ := arith_dimension h hresolved hside
    have halgebra := algebra_of_dimensional h hresolved hdim hside hl hr hd
    have hleft := operand_sound h hresolved hdim htyped
      (mem_subterms.2 (Or.inr ⟨equality, a, hside, Or.inl rfl⟩)) hl
    have hright := operand_sound h hresolved hdim htyped
      (mem_subterms.2 (Or.inr ⟨equality, a, hside, Or.inr rfl⟩)) hr
    refine ⟨d, hd, ?_, fun condition => yields_arith halgebra (hleft.1 condition)
      (hright.1 condition), ?_⟩
    · exact computes_of_algebra hlc hrc halgebra
    · intro hpresent
      have hl' := hleft.2 fun name hname => hpresent name (List.mem_append_left _ hname)
      have hr' := hright.2 fun name hname => hpresent name (List.mem_append_right _ hname)
      simp only [termDimension, hl', hr']
      exact halgebra

end

end

/-! ### Comparisons of a guard -/

/-- Only an equality gives an operand the dimension of a text. -/
theorem dimension_ne_text :
    scope.valueDimension rules.py text subject false (.operand o) ≠ .ok (some .text) := by
  intro h
  cases o with
  | lit l => cases h
  | ref r =>
    simp only [Front.Scope.valueDimension, Front.Scope.operandDimension,
      Front.Scope.checkReference, bind_eq_ok] at h
    obtain ⟨g, hg, h⟩ := h
    cases g with
    | none => cases h
    | some f =>
      simp only [bind_eq_ok] at h
      obtain ⟨d, hd, h⟩ := h
      cases pure_eq_ok.1 h
      rcases dimensionOf_eq_ok scope hd with ⟨_, heq, _⟩ | hbase
      · cases heq
      · exact absurd rfl (not_text_of_baseDimension hbase).2.1

/-- A text equality that lowering accepts is one to a run, with names that lowering has recorded. -/
theorem refs_of_text {left right : Option Dimension}
    (hleft : scope.valueDimension rules.py text subject t.op.isEquality t.left = .ok left)
    (hright : scope.valueDimension rules.py text subject t.op.isEquality t.right = .ok right)
    (htext : left = some .text ∨ right = some .text) (hl : ∃ l, t.left = .operand l)
    (hr : ∃ r, t.right = .operand r) (hldim : left = none ∨ left = some .text)
    (hrdim : right = none ∨ right = some .text) :
    t.op.isEquality = true ∧ (∃ l, t.left = .operand (.ref l)) ∧
      ∃ r, t.right = .operand (.ref r) := by
  obtain ⟨l, hl⟩ := hl
  obtain ⟨r, hr⟩ := hr
  rw [hl] at hleft
  rw [hr] at hright
  refine ⟨?_, ?_, ?_⟩
  · by_contra hop
    rw [Bool.not_eq_true] at hop
    rw [hop] at hleft hright
    rcases htext with rfl | rfl
    · exact dimension_ne_text hleft
    · exact dimension_ne_text hright
  · cases l with
    | lit lit =>
      cases hleft
      simp at hldim
    | ref ref => exact ⟨ref, hl⟩
  · cases r with
    | lit lit =>
      cases hright
      simp at hrdim
    | ref ref => exact ⟨ref, hr⟩

/-- A name that lowering has recorded is of a text, or undeclared. -/
theorem dimension_of_recorded (h : (Clause.guard text cond).check rules scope = .ok names)
    (hr : r.name ∈ names) :
    (Clause.guard text cond).dimension rules scope true (.operand (.ref r)) = .ok none ∨
      (Clause.guard text cond).dimension rules scope true (.operand (.ref r)) =
        .ok (some .text) := by
  obtain ⟨nss, hnss, rfl⟩ := checkCondition_comparisons h
  obtain ⟨ns, hns, hmem⟩ := List.mem_flatten.1 hr
  obtain ⟨t, _, hterm⟩ := (mem_mapM hnss).1 hns
  obtain ⟨left, right, hleft, hright, hcase⟩ := checkTerm_eq_ok hterm
  rcases hcase with ⟨htext, rfl, hlop, hrop, hldim, hrdim⟩ | ⟨_, _, rfl, _⟩
  · obtain ⟨hop, ⟨l, hl⟩, ⟨r', hr'⟩⟩ := refs_of_text hleft hright htext hlop hrop hldim hrdim
    rw [hl, hop] at hleft
    rw [hr', hop] at hright
    have hnames : r.name = l.name ∨ r.name = r'.name := by
      simpa [Front.Comparison.refs, hl, hr', Front.Value.ref?] using hmem
    rcases hnames with hname | hname
    · have : r = l := congrArg Front.Ref.mk hname
      rw [this]
      rcases hldim with rfl | rfl
      · exact Or.inl hleft
      · exact Or.inr hleft
    · have : r = r' := congrArg Front.Ref.mk hname
      rw [this]
      rcases hrdim with rfl | rfl
      · exact Or.inl hright
      · exact Or.inr hright
  · cases hmem

/-- A comparison of an accepted guard stops on the values only. -/
theorem comparison_sound (h : (Clause.guard text cond).check rules scope = .ok names)
    (hresolved : (Clause.guard text cond).Resolved rules scope)
    (hdim : Dimensional rules scope (.guard text cond)) (htyped : Typed rules scope env)
    (ht : t ∈ cond.comparisons)
    (he : comparisonHolds rules.py rules.ops names condition env t = .error e) :
    e.cause.ofValues = true := by
  obtain ⟨nss, hnss, hnames⟩ := checkCondition_comparisons h
  obtain ⟨ns, hns, hterm⟩ := exists_of_mapM hnss ht
  obtain ⟨left, right, hleft, hright, hcase⟩ := checkTerm_eq_ok hterm
  rcases hcase with ⟨htext, rfl, hlop, hrop, hldim, hrdim⟩ | ⟨hnl, hnr, _, hsame⟩
  -- a text equality is one to the run
  · obtain ⟨hop, ⟨l, hl⟩, ⟨r, hr⟩⟩ := refs_of_text hleft hright htext hlop hrop hldim hrdim
    have hname : l.name ∈ names := by
      rw [hnames]
      refine List.mem_flatten.2 ⟨_, hns, ?_⟩
      simp [Front.Comparison.refs, hl, Front.Value.ref?]
    have hterm : isTextTerm names t = true := by
      rw [isTextTerm, Bool.and_eq_true]
      refine ⟨hop, ?_⟩
      simp [hl, hname]
    obtain ⟨holds, hholds⟩ := textComparison_ok rules.py rules.ops condition env
      (by rw [hl]; rfl : t.left.ref?.isSome = true) (by rw [hr]; rfl : t.right.ref?.isSome = true)
    rw [comparisonHolds, if_pos hterm, hholds] at he
    cases he
  -- any other comparison has two sides of one dimension
  · have htext : (Clause.guard text cond).comparesText rules scope t = false := by
      rw [Clause.comparesText, Bool.and_eq_false_iff, or_iff_not_imp_left, Bool.not_eq_false]
      intro hop
      rw [hop] at hleft hright
      rw [List.any_eq_false]
      intro v hv hvt
      have hdimension := dimension_of_isText hvt
      simp only [List.mem_cons, List.not_mem_nil, or_false] at hv
      rcases hv with rfl | rfl
      · exact hnl (by simpa [Clause.dimension] using hleft.symm.trans hdimension)
      · exact hnr (by simpa [Clause.dimension] using hright.symm.trans hdimension)
    have hlside := mem_subterms.2 (Or.inl (mem_sides_guard.2 ⟨t, ht, htext, Or.inl rfl⟩))
    have hrside := mem_subterms.2 (Or.inl (mem_sides_guard.2 ⟨t, ht, htext, Or.inr rfl⟩))
    obtain ⟨l, hl, hlc, hly, _⟩ := subterm_sound h hresolved hdim htyped hlside
    obtain ⟨r, hr, hrc, hry, _⟩ := subterm_sound h hresolved hdim htyped hrside
    have hleft' : left = some l := Except.ok.inj (hleft.symm.trans hl)
    have hright' : right = some r := Except.ok.inj (hright.symm.trans hr)
    obtain rfl := hsame l r hleft' hright'
    have hnumbers : isTextTerm names t = false := by
      rw [isTextTerm, Bool.and_eq_false_iff, or_iff_not_imp_left, Bool.not_eq_false]
      intro hop
      have hop' : t.op.isEquality = true := hop
      have hrecorded : ∀ v ∈ [t.left, t.right],
          (Clause.guard text cond).dimension rules scope true v = .ok (some l) →
            ∀ r, v = .operand (.ref r) → r.name ∉ names := by
        rintro _ _ hv r rfl hmem
        rcases dimension_of_recorded h hmem with hnone | htext
        · rw [hnone] at hv
          cases hv
        · rw [htext] at hv
          cases hv
          rcases hlc with hc | hc | hc <;> cases hc
      rw [hop'] at hl hr
      have hboth : ∀ v ∈ [t.left, t.right],
          (Clause.guard text cond).dimension rules scope true v = .ok (some l) := by
        simp only [List.forall_mem_cons, List.not_mem_nil, false_implies, implies_true, and_true]
        exact ⟨hl, hr⟩
      rw [List.any_eq_false]
      intro v hv hname
      split at hname
      · next r => exact hrecorded _ hv (hboth _ hv) r rfl (by simpa using hname)
      · cases hname
    exact comparison_fault (hly condition) (hry condition) hnumbers he

/-- What stops a condition stops one of its comparisons. -/
theorem parsedHolds_error (h : parsedHolds rules.py rules.ops names condition env cond = .error e) :
    ∃ t ∈ cond.comparisons,
      comparisonHolds rules.py rules.ops names condition env t = .error e := by
  have hterm : ∀ t, termHolds rules.py rules.ops names condition env t = .error e →
      ∃ comparison, t = .comparison comparison ∧
        comparisonHolds rules.py rules.ops names condition env comparison = .error e := by
    intro t ht
    cases t with
    | comparison comparison => exact ⟨comparison, rfl, ht⟩
    | numericPredicate p => cases ht
  cases cond with
  | presence p =>
    unfold parsedHolds at h
    dsimp only at h
    split at h <;> cases h
  | term t =>
    obtain ⟨comparison, rfl, hcomparison⟩ := hterm t h
    exact ⟨comparison, List.mem_singleton_self comparison, hcomparison⟩
  | and a =>
    simp only [parsedHolds] at h
    cases hresults : a.terms.mapM (termHolds rules.py rules.ops names condition env) with
    | ok results =>
      rw [hresults] at h
      cases h
    | error fault =>
      rw [hresults] at h
      cases h
      obtain ⟨t, ht, hfault⟩ := exists_of_mapM_error hresults
      obtain ⟨comparison, rfl, hcomparison⟩ := hterm t hfault
      exact ⟨comparison, List.mem_filterMap.2 ⟨_, ht, rfl⟩, hcomparison⟩

/-- **Nothing is mixed**: an accepted clause stops on the values only. -/
theorem evaluate_sound (hparsed : clause.Parsed rules) (h : clause.check rules scope = .ok names)
    (hresolved : clause.Resolved rules scope) (hdim : Dimensional rules scope clause)
    (htyped : Typed rules scope env) (he : clause.evaluate rules names env = .error e) :
    e.cause.ofValues = true := by
  cases clause with
  | assignment lineno target rhs =>
    have hside : (false, rhs) ∈ (Clause.assignment lineno target rhs).subterms rules scope :=
      mem_subterms.2 (Or.inl (List.mem_singleton_self _))
    obtain ⟨d, _, _, hyields, _⟩ := subterm_sound h hresolved hdim htyped hside
    apply (hyields rhs.toText).fault
    cases hx : evalValue rules.py rules.ops rhs.toText env rhs with
    | ok q =>
      simp only [Clause.evaluate, hx] at he
      cases he
    | error fault =>
      simp only [Clause.evaluate, hx] at he
      cases he
      rfl
  | guard text cond =>
    have hcond : conditionHolds rules.py rules.ops names text env =
        parsedHolds rules.py rules.ops names text env cond := by
      rw [conditionHolds, show Front.parseCondition rules.py (some text) = _ from hparsed]
    cases hx : parsedHolds rules.py rules.ops names text env cond with
    | ok holds =>
      simp only [Clause.evaluate, hcond, hx] at he
      cases he
    | error fault =>
      simp only [Clause.evaluate, hcond, hx] at he
      cases he
      obtain ⟨t, ht, hfault⟩ := parsedHolds_error hx
      exact comparison_sound h hresolved hdim htyped ht hfault

/-! ### Scopes of one value -/

/-- The scope in which one reference resolves to a value, and no other to anything. -/
def Scope.single (binding field : String) (value : Json) : Scope :=
  let row : Dict := (∅ : Dict).insert field value
  if binding = payloadNamespace then { payload := row, bindings := ∅, caller := none }
  else { payload := ∅, bindings := (∅ : Bindings).insert binding { data := row }, caller := none }

theorem resolve_single {value : Json} (h : binding ≠ callerNamespace) :
    resolveReference (.qualified binding field) (Scope.single binding field value) = value := by
  unfold Scope.single resolveReference
  dsimp only
  rw [if_neg h]
  split_ifs with hpayload
  · simp [Dict.get]
  · simp [Dict.get]

theorem resolve_single_ne {b g : String} {value : Json}
    (h : (resolveReference (.qualified b g) (Scope.single binding field value)).isNull = false) :
    b = binding ∧ g = field := by
  unfold Scope.single resolveReference at h
  dsimp only at h
  by_cases hcaller : b = callerNamespace
  · rw [if_pos hcaller] at h
    split_ifs at h <;> cases h
  · rw [if_neg hcaller] at h
    by_cases hpayload : binding = payloadNamespace
    · simp only [if_pos hpayload] at h
      split_ifs at h with hb
      · rw [Dict.get, Std.ExtTreeMap.getElem?_insert] at h
        split_ifs at h with hg
        · exact ⟨hb.trans hpayload.symm, (Std.LawfulEqCmp.eq_of_compare hg).symm⟩
        · simp [Json.isNull] at h
      · simp [Json.isNull] at h
    · simp only [if_neg hpayload] at h
      split_ifs at h with hb
      · simp [Dict.get, Json.isNull] at h
      · rw [Std.ExtTreeMap.getElem?_insert] at h
        split_ifs at h with hbinding
        · simp only [Dict.get, Std.ExtTreeMap.getElem?_insert] at h
          split_ifs at h with hg
          · exact ⟨(Std.LawfulEqCmp.eq_of_compare hbinding).symm,
              (Std.LawfulEqCmp.eq_of_compare hg).symm⟩
          · simp [Json.isNull] at h
        · simp [Json.isNull] at h

/-- No declaration admits nothing. -/
theorem not_null_of_admits {value : Json} (h : Admits rules scope f value) :
    value.isNull = false := by
  have hconforms := h.1
  cases value <;> first | rfl | simp [conforms, Json.isNull] at hconforms

/-- A value that a declaration of a reference admits is a typed scope. -/
theorem typed_single {value : Json} (hf : f ∈ declarations scope binding field)
    (h : Admits rules scope f value) :
    binding ≠ callerNamespace ∧ Typed rules scope (Scope.single binding field value) := by
  have hcaller : binding ≠ callerNamespace := by
    rintro rfl
    simp [declarations, callerNamespace, Front.payloadNamespace, Front.callerNamespace] at hf
  refine ⟨hcaller, ?_⟩
  intro b g _ hpresent
  obtain ⟨rfl, rfl⟩ := resolve_single_ne hpresent
  rw [resolve_single hcaller]
  exact ⟨f, hf, h⟩

/-! ### The condition is necessary -/

/-- A sound clause does nothing else with an instant than what the algebra has. -/
theorem instants_of_sound (h : clause.check rules scope = .ok names)
    (hresolved : clause.Resolved rules scope) (hsound : DimensionSound rules scope clause names)
    (ha : (equality, .arith a) ∈ clause.sides rules scope) :
    (clause.IsInstant rules scope a.left ∧ ¬ clause.IsInstant rules scope a.right →
      a.op = .add ∨ a.op = .sub) ∧
    (¬ clause.IsInstant rules scope a.left ∧ clause.IsInstant rules scope a.right →
      a.op = .add) := by
  obtain ⟨l, r, d, hl, hr, hd, hlc, hrc, harith⟩ := arith_dimension h hresolved ha
  have halgebra := hsound.algebra equality a ha l r d hl hr hd
  rw [isInstant_iff h hresolved (mem_subterms.2 (Or.inr ⟨equality, a, ha, Or.inl rfl⟩)) hl,
    isInstant_iff h hresolved (mem_subterms.2 (Or.inr ⟨equality, a, ha, Or.inr rfl⟩)) hr]
  constructor
  · rintro ⟨rfl, hne⟩
    rcases hrc with rfl | rfl | rfl
    · cases hop : a.op <;> simp_all [algebra]
    · exact absurd rfl hne
    · cases hop : a.op <;> simp_all [algebra]
  · rintro ⟨hne, rfl⟩
    rcases hlc with rfl | rfl | rfl
    · cases hop : a.op <;> simp_all [algebra]
    · exact absurd rfl hne
    · cases hop : a.op <;> simp_all [algebra]

/-- The declarations of a reference of a sound clause admit values of one dimension only. -/
theorem declarations_of_sound (h : clause.check rules scope = .ok names)
    (hresolved : clause.Resolved rules scope) (hsound : DimensionSound rules scope clause names)
    (hr : (equality, .operand (.ref r)) ∈ clause.subterms rules scope)
    (hbase : clause.declaredBase rules scope r.name = some base)
    (hpart : Front.partitionName r.name = some (binding, field))
    (hf : f ∈ declarations scope binding field) {value : Json}
    (hvalue : Admits rules scope f value) :
    rawDimension rules value = baseDimension base := by
  obtain ⟨hcaller, htyped⟩ := typed_single hf hvalue
  have hresolve : resolveReference (refOf r.name) (Scope.single binding field value) = value := by
    simp only [refOf, hpart]
    exact resolve_single hcaller
  have hpresent : Present (Scope.single binding field value) (.operand (.ref r)) := by
    intro name hname
    rw [List.mem_singleton.1 hname, hresolve]
    exact not_null_of_admits hvalue
  obtain ⟨d, hd, hterm, _⟩ := hsound.subterms _ htyped equality _ hr hpresent
  simp only [termDimension, operandDimension, hresolve] at hterm
  obtain ⟨d', hd', _, _, href⟩ := operand_dimension h hresolved hr
  rw [hd] at hd'
  cases hd'
  obtain ⟨base', hbase', hdimension⟩ := href r rfl
  rw [hbase] at hbase'
  cases hbase'
  rw [hterm, hdimension]

/-! ### Declarations of one base -/

/-- The values of a base have its dimension. -/
theorem rawDimension_of_conforms {value : Json} (hbase : baseDimension base = some d)
    (h : conforms rules.py rules.ops base value = true) :
    rawDimension rules value = some d := by
  unfold baseDimension at hbase
  split_ifs at hbase with h1 h2 h3
  · cases hbase
    subst h1
    cases value <;> simp [conforms, Json.isNull] at h
    rfl
  · cases hbase
    subst h2
    cases value with
    | str s =>
      have hstamp : (stampOf rules.py s.toList).isSome = true := by
        simp only [conforms, Json.isNull, Bool.false_eq_true, if_false, String.reduceEq, if_true,
          isDateTime, Bool.and_eq_true] at h
        exact h.1
      simp [rawDimension, looksLikeInstant, hstamp]
    | _ => simp [conforms, Json.isNull] at h
  · cases hbase
    subst h3
    cases value with
    | obj fields =>
      simp only [conforms, Json.isNull, Bool.false_eq_true, if_false, String.reduceEq, if_true,
        isMoneyShaped] at h
      split at h
      · next amount currency hamount hcurrency => simp [rawDimension, hamount, hcurrency]
      · cases h
    | _ => simp [conforms, Json.isNull, isMoneyShaped] at h

/-- It is enough that all declarations of a reference have its base. -/
theorem declarations_of_bases (h : clause.check rules scope = .ok names)
    (hresolved : clause.Resolved rules scope)
    (hbases : ∀ equality r, (equality, .operand (.ref r)) ∈ clause.subterms rules scope →
      ∀ base, clause.declaredBase rules scope r.name = some base →
        ∀ binding field, Front.partitionName r.name = some (binding, field) →
          ∀ f ∈ declarations scope binding field, scope.base f.type = base)
    (hr : (equality, .operand (.ref r)) ∈ clause.subterms rules scope)
    (hbase : clause.declaredBase rules scope r.name = some base)
    (hpart : Front.partitionName r.name = some (binding, field))
    (hf : f ∈ declarations scope binding field) {value : Json}
    (hvalue : Admits rules scope f value) : rawDimension rules value = baseDimension base := by
  obtain ⟨d, _, _, _, href⟩ := operand_dimension h hresolved hr
  obtain ⟨base', hbase', hdimension⟩ := href r rfl
  rw [hbase] at hbase'
  cases hbase'
  have hconforms := hvalue.1
  rw [hbases equality r hr base hbase binding field hpart f hf] at hconforms
  rw [rawDimension_of_conforms hdimension hconforms, hdimension]

/-! ### The law -/

/-- Rules without refinements. -/
def plainRules : Rules :=
  { py := .ascii
    ops :=
      { repr := fun _ => ""
        str := fun
          | .str s => s
          | _ => ""
        eq := fun
          | .str s, .str t => s == t
          | _, _ => false }
    facets := fun _ _ => true
    closest := fun _ _ => none
    lower := id }

/-- A workflow that reads orders. -/
def orderScope : Front.Scope :=
  { workflowName := "Remind"
    registry :=
      [{ id := "entity-order", name := "Order", qualified := "Order", binding := "order"
         fields := [⟨"createdAt", "DateTime", false⟩, ⟨"dueAt", "DateTime", false⟩] }]
    readEntities := ["entity-order"] }

/-- `order.createdAt op literal <= order.dueAt`. -/
def dueGuard (text : String) (op : ArithOp) (literal : Front.Lit) : Clause :=
  .guard text (.term (.comparison
    { left := .arith ⟨.ref ⟨"order.createdAt"⟩, op, .lit literal⟩
      op := .le
      right := .operand (.ref ⟨"order.dueAt"⟩) }))

/-- The references of the guard. -/
theorem name_of_dueGuard (h : (equality, .operand (.ref r)) ∈
      (dueGuard text op literal).subterms plainRules orderScope) :
    r.name = "order.createdAt" ∨ r.name = "order.dueAt" := by
  rcases mem_subterms.1 h with hside | ⟨_, a, hside, hr⟩
  · obtain ⟨t, ht, _, hv⟩ := mem_sides_guard.1 hside
    rw [List.mem_singleton.1 ht] at hv
    rcases hv with hv | hv <;> cases hv
    exact Or.inr rfl
  · obtain ⟨t, ht, _, hv⟩ := mem_sides_guard.1 hside
    rw [List.mem_singleton.1 ht] at hv
    rcases hv with hv | hv <;> cases hv
    rcases hr with hr | hr <;> cases hr
    exact Or.inl rfl

theorem declaredBase_dueGuard (h : r.name = "order.createdAt" ∨ r.name = "order.dueAt") :
    (dueGuard text op literal).declaredBase plainRules orderScope r.name = some "DateTime" := by
  rcases h with hname | hname <;> rw [hname] <;> rfl

theorem resolved_dueGuard : (dueGuard text op literal).Resolved plainRules orderScope := by
  intro equality r hr
  rw [declaredBase_dueGuard (name_of_dueGuard hr)]
  rfl

end Lnpl.Interp
