import Lnpl.Backend.Equiv.Definitions

/-!
# Runs of the lines of a guard

Each function of the emitter is given a rule: where the operands of its condition are bound, its
lines are run to the end and bind the value of the condition.  The one obstacle is a division of the
smallest number by -1.
-/

namespace Lnpl.Backend

open Front (Python)
open Lib (Extends lookupAll lookupAll_cons)
open Lib.Machine (Reaches)

/-! ### Values -/

def operandBits (inputs : String → BitVec 64) : Front.Operand → BitVec 64
  | .ref r => inputs r.name
  | .lit l => BitVec.ofNat 64 l.value

/-- What the operations of a value compute; a zero divisor is replaced by 1. -/
def valueBits (inputs : String → BitVec 64) : Front.Value → BitVec 64
  | .operand o => operandBits inputs o
  | .arith a =>
    let left := operandBits inputs a.left
    let right := operandBits inputs a.right
    match a.op with
    | .add => left + right
    | .sub => left - right
    | .mul => left * right
    | .div => left.sdiv (if right == 0 then 1 else right)

def termBit (inputs : String → BitVec 64) (t : Front.Comparison) : Bool :=
  (cmpPred t.op).holds (valueBits inputs t.left) (valueBits inputs t.right)

/-- The truth value of a condition of comparisons. -/
def condBit (inputs : String → BitVec 64) (cond : Option Front.Condition) : Bool :=
  (comparisons cond).all (termBit inputs)

/-- The division of a value does not overflow. -/
def Safe (inputs : String → BitVec 64) : Front.Value → Prop
  | .arith ⟨left, .div, right⟩ =>
    ¬(operandBits inputs left = BitVec.intMin 64 ∧ operandBits inputs right = -1)
  | _ => True

/-- The names that a value is made of are bound to its operands and constants. -/
def BindsValue (env : Env) (inputs : String → BitVec 64) (v : Front.Value) : Prop :=
  (∀ o ∈ v.operands, env.lookup (operandName o).text = some (.i64 (operandBits inputs o))) ∧
    ∀ a, v = .arith a → a.op = .div →
      env.lookup (Ssa.plain "c" "0" ["i64"]).text = some (.i64 0) ∧
        env.lookup (Ssa.plain "c" "1" ["i64"]).text = some (.i64 1)

variable {env env' : Env} {inputs : String → BitVec 64}

variable {v : Front.Value} {op : Opcode} {slot text : String} {step : Nat}

theorem BindsValue.mono (h : BindsValue env inputs v) (hext : Extends env env') :
    BindsValue env' inputs v :=
  ⟨fun o ho => hext _ _ (h.1 o ho), fun a ha hop =>
    ⟨hext _ _ (h.2 a ha hop).1, hext _ _ (h.2 a ha hop).2⟩⟩

/-! ### Operands -/

/-- The rule of an instruction of two arguments. -/
theorem reaches_two {d a b : Ssa} {x y v : Bits} (hfresh : mlir.Fresh env [⟨some d, op, [a, b]⟩])
    (ha : env.lookup a.text = some x) (hb : env.lookup b.text = some y)
    (heval : op.eval [x, y] = .ok v) :
    mlir.Reaches env [⟨some d, op, [a, b]⟩] fun env' => env'.lookup d.text = some v :=
  Reaches.named hfresh rfl (lookupAll_cons ha (lookupAll_cons hb rfl)) heval

variable {idx : Index} {t : Front.Comparison} {negate : Bool} {cond : Option Front.Condition}
  {texts : List String}

theorem reaches_emitDivision {left right : Ssa} {x y : BitVec 64}
    (hfresh : mlir.Fresh env (emitDivision left right idx slot).1)
    (hleft : env.lookup left.text = some (.i64 x)) (hright : env.lookup right.text = some (.i64 y))
    (hzero : env.lookup (Ssa.plain "c" "0" ["i64"]).text = some (.i64 0))
    (hone : env.lookup (Ssa.plain "c" "1" ["i64"]).text = some (.i64 1))
    (hsafe : ¬(x = BitVec.intMin 64 ∧ y = -1)) :
    mlir.Reaches env (emitDivision left right idx slot).1 fun env' =>
      env'.lookup (emitDivision left right idx slot).2.text =
        some (.i64 (x.sdiv (if y == 0 then 1 else y))) := by
  -- the divisor is compared with 0, replaced, and divided by
  show mlir.Reaches env ([_] ++ ([_] ++ [_])) _
  apply Reaches.append hfresh
  · exact fun hfirst => reaches_two hfirst hright hzero rfl
  intro mid hext hisZero hrest
  apply Reaches.append hrest
  · intro hsecond
    exact Reaches.named hsecond rfl (lookupAll_cons hisZero
      (lookupAll_cons (hext _ _ hone) (lookupAll_cons (hext _ _ hright) rfl))) rfl
  intro mid' hext' hsafeRight hlast
  have hdivisor : (if (y == 0) = true then Bits.i64 1 else .i64 y) =
      .i64 (if y == 0 then 1 else y) := by
    split <;> rfl
  rw [show Predicate.eq.holds y 0 = (y == 0) from rfl, hdivisor] at hsafeRight
  apply reaches_two hlast (hext' _ _ (hext _ _ hleft)) hsafeRight
  apply if_neg
  rintro (hnil | ⟨hmin, hminus⟩)
  · split at hnil
    · exact absurd hnil (by decide)
    · next hne => exact hne (beq_iff_eq.mpr hnil)
  · split at hminus
    · exact absurd hminus (by decide)
    · exact hsafe ⟨hmin, hminus⟩

/-- **Operands**: the lines of a value bind it. -/
theorem reaches_emitOperand (hfresh : mlir.Fresh env (emitOperand idx slot v).1)
    (hbinds : BindsValue env inputs v) (hsafe : Safe inputs v) :
    mlir.Reaches env (emitOperand idx slot v).1 fun env' =>
      env'.lookup (emitOperand idx slot v).2.text = some (.i64 (valueBits inputs v)) := by
  cases v with
  | operand o => exact Reaches.nil (hbinds.1 o List.mem_cons_self)
  | arith a =>
    obtain ⟨left, op, right⟩ := a
    have hleft := hbinds.1 left List.mem_cons_self
    have hright := hbinds.1 right (List.mem_cons_of_mem _ List.mem_cons_self)
    cases op with
    | add => exact reaches_two hfresh hleft hright rfl
    | sub => exact reaches_two hfresh hleft hright rfl
    | mul => exact reaches_two hfresh hleft hright rfl
    | div =>
      obtain ⟨hzero, hone⟩ := hbinds.2 _ rfl rfl
      exact reaches_emitDivision hfresh hleft hright hzero hone hsafe

/-! ### Comparisons -/

/-- Both sides of a comparison are bound, and their divisions do not overflow. -/
def BindsTerm (env : Env) (inputs : String → BitVec 64) (t : Front.Comparison) : Prop :=
  (BindsValue env inputs t.left ∧ BindsValue env inputs t.right) ∧
    Safe inputs t.left ∧ Safe inputs t.right

theorem BindsTerm.mono (h : BindsTerm env inputs t) (hext : Extends env env') :
    BindsTerm env' inputs t :=
  ⟨⟨h.1.1.mono hext, h.1.2.mono hext⟩, h.2⟩

theorem reaches_emitTerm {n : Nat} {pred : Predicate} {name : Ssa}
    (hfresh : mlir.Fresh env (emitTerm idx n pred name t)) (hbinds : BindsTerm env inputs t) :
    mlir.Reaches env (emitTerm idx n pred name t) fun env' => env'.lookup name.text =
      some (.i1 (pred.holds (valueBits inputs t.left) (valueBits inputs t.right))) := by
  unfold emitTerm at hfresh ⊢
  dsimp only at hfresh ⊢
  rw [List.append_assoc] at hfresh ⊢
  apply Reaches.append hfresh
  · exact fun hleft => reaches_emitOperand hleft hbinds.1.1 hbinds.2.1
  intro mid hext hleft hrest
  apply Reaches.append hrest
  · exact fun hright => reaches_emitOperand hright (hbinds.1.2.mono hext) hbinds.2.2
  intro mid' hext' hright hlast
  exact reaches_two hlast (hext' _ _ hleft) hright rfl

theorem reaches_emitTerms {ts : List Front.Comparison} :
    ∀ {env : Env} {n : Nat}, mlir.Fresh env (emitTerms idx n ts).1 →
      (∀ t ∈ ts, BindsTerm env inputs t) →
      mlir.Reaches env (emitTerms idx n ts).1 fun env' =>
        lookupAll env' ((emitTerms idx n ts).2.map Ssa.text) =
          some (ts.map fun t => .i1 (termBit inputs t)) := by
  induction ts with
  | nil => exact fun _ _ => Reaches.nil rfl
  | cons t ts ih =>
    intro env n hfresh hbinds
    apply Reaches.append hfresh
    · exact fun hfirst => reaches_emitTerm hfirst (hbinds t List.mem_cons_self)
    intro mid hext hname hrest
    apply (ih hrest fun t' ht' => (hbinds t' (List.mem_cons_of_mem t ht')).mono hext).mono
    intro env' hext' htail
    exact lookupAll_cons (hext' _ _ hname) htail

/-! ### Folds -/

theorem reaches_foldNames {word : String} {f : Bool → Bool → Bool}
    (heval : ∀ a b, op.eval [.i1 a, .i1 b] = .ok (.i1 (f a b))) {names : List Ssa} :
    ∀ {env : Env} {n : Nat} {folded : Ssa} {b : Bool} {bits : List Bool},
      mlir.Fresh env (foldNames word op idx n folded names).1 →
      env.lookup folded.text = some (.i1 b) →
      lookupAll env (names.map Ssa.text) = some (bits.map .i1) →
      mlir.Reaches env (foldNames word op idx n folded names).1 fun env' =>
        env'.lookup (foldNames word op idx n folded names).2.text =
          some (.i1 (bits.foldl f b)) := by
  induction names with
  | nil =>
    intro env n folded b bits _ hfolded hnames
    have hbits : bits = [] := List.map_eq_nil_iff.mp (Option.some.inj hnames).symm
    rw [hbits]
    exact Reaches.nil hfolded
  | cons name names ih =>
    intro env n folded b bits hfresh hfolded hnames
    cases bits with
    | nil => cases Lib.length_of_lookupAll hnames
    | cons bit bits =>
      obtain ⟨hname, hnames⟩ := Lib.lookupAll_cons_eq_some.mp hnames
      show mlir.Reaches env ([_] ++ (foldNames word op idx (n + 1) _ names).1) fun env' =>
        env'.lookup (foldNames word op idx (n + 1) _ names).2.text =
          some (.i1 (bits.foldl f (f b bit)))
      apply Reaches.append hfresh
      · exact fun hfirst => reaches_two hfirst hfolded hname (heval b bit)
      intro mid hext hnext hrest
      exact ih hrest hnext (hext.lookupAll hnames)

theorem foldl_and (bits : List Bool) : ∀ b, bits.foldl (· && ·) b = (b && bits.all id) := by
  induction bits with
  | nil => exact fun b => (Bool.and_true b).symm
  | cons bit bits ih =>
    intro b
    rw [List.foldl_cons, ih, List.all_cons, Bool.and_assoc]
    rfl

theorem foldl_or (bits : List Bool) : ∀ b, bits.foldl (· || ·) b = (b || bits.any id) := by
  induction bits with
  | nil => exact fun b => (Bool.or_false b).symm
  | cons bit bits ih =>
    intro b
    rw [List.foldl_cons, ih, List.any_cons, Bool.or_assoc]
    rfl

/-! ### Conditions -/

/-- The comparisons of a condition are bound; the negation of several needs the constant `true`. -/
def BindsCond (env : Env) (inputs : String → BitVec 64) (negate : Bool)
    (cond : Option Front.Condition) : Prop :=
  (∀ t ∈ comparisons cond, BindsTerm env inputs t) ∧
    (negate = true → 2 ≤ (comparisons cond).length →
      env.lookup (Ssa.plain "true" "" ["i1"]).text = some (.i1 true))

theorem BindsCond.mono (h : BindsCond env inputs negate cond) (hext : Extends env env') :
    BindsCond env' inputs negate cond :=
  ⟨fun t ht => (h.1 t ht).mono hext, fun hnegate hlength => hext _ _ (h.2 hnegate hlength)⟩

theorem bindsCond_of_none (h : comparisons cond = []) : BindsCond env inputs negate cond := by
  unfold BindsCond
  rw [h]
  exact ⟨fun t ht => absurd ht List.not_mem_nil, fun _ hlength => absurd hlength (by decide)⟩

/-- A negated comparison is false where the comparison holds. -/
theorem holds_negatedCmp (op : Front.Comparator) (a b : BitVec 64) :
    (negatedCmp op).holds a b = !(cmpPred op).holds a b := by
  cases op with
  | lt =>
    show b.sle a = !a.slt b
    rw [BitVec.sle_eq_not_slt]
  | le =>
    show b.slt a = !a.sle b
    rw [BitVec.sle_eq_not_slt, Bool.not_not]
  | gt =>
    show a.sle b = !b.slt a
    rw [BitVec.sle_eq_not_slt]
  | ge =>
    show a.slt b = !b.sle a
    rw [BitVec.sle_eq_not_slt, Bool.not_not]
  | eq => rfl
  | ne =>
    show (a == b) = !!(a == b)
    rw [Bool.not_not]

/-- The lines of several comparisons and of their conjunction. -/
theorem reaches_conjunction {t' : Front.Comparison} {rest : List Front.Comparison}
    (hfresh : mlir.Fresh env ((emitTerms idx 0 (t :: t' :: rest)).1 ++
      (foldNames "and" .andi idx 1 (idx.name "cond" [toString 0])
        (emitTerms idx 0 (t :: t' :: rest)).2.tail).1))
    (hbinds : ∀ u ∈ t :: t' :: rest, BindsTerm env inputs u) :
    mlir.Reaches env ((emitTerms idx 0 (t :: t' :: rest)).1 ++
      (foldNames "and" .andi idx 1 (idx.name "cond" [toString 0])
        (emitTerms idx 0 (t :: t' :: rest)).2.tail).1) fun env' =>
      env'.lookup (foldNames "and" .andi idx 1 (idx.name "cond" [toString 0])
        (emitTerms idx 0 (t :: t' :: rest)).2.tail).2.text =
          some (.i1 ((t :: t' :: rest).all (termBit inputs))) := by
  apply Reaches.append hfresh
  · exact fun hterms => reaches_emitTerms hterms hbinds
  intro mid hext hnames hfold
  obtain ⟨hfirst, htail⟩ := Lib.lookupAll_cons_eq_some.mp hnames
  have hbits : ((t' :: rest).map fun u => Bits.i1 (termBit inputs u)) =
      ((t' :: rest).map (termBit inputs)).map .i1 := (List.map_map).symm
  have htail' : lookupAll mid ((emitTerms idx 0 (t :: t' :: rest)).2.tail.map Ssa.text) =
      some (((t' :: rest).map (termBit inputs)).map .i1) := htail.trans (congrArg some hbits)
  apply (reaches_foldNames (fun a b => rfl) hfold hfirst htail').mono
  intro env' _ hfolded
  rw [hfolded, foldl_and, List.all_map, List.all_cons]
  rfl

/-- **Conditions**: the lines of a condition bind its truth value, or the negation of it. -/
theorem reaches_emitCondition (hfresh : mlir.Fresh env (emitCondition cond idx negate).1)
    (hbinds : BindsCond env inputs negate cond) :
    mlir.Reaches env (emitCondition cond idx negate).1 fun env' =>
      ∀ name, (emitCondition cond idx negate).2 = some name →
        env'.lookup name.text = some (.i1 (negate ^^ condBit inputs cond)) := by
  match h : comparisons cond with
  | [] =>
    rw [emitCondition_of_none h]
    exact Reaches.nil fun name hname => nomatch hname
  | [t] =>
    have hbit : condBit inputs cond = termBit inputs t := by
      unfold condBit
      rw [h]
      exact Bool.and_true _
    have hterm : BindsTerm env inputs t := hbinds.1 t (by rw [h]; exact List.mem_cons_self)
    rw [emitCondition_of_one h] at hfresh ⊢
    dsimp only at hfresh ⊢
    apply (reaches_emitTerm hfresh hterm).mono
    intro env' _ hlookup name hname
    rw [← Option.some.inj hname, hlookup, hbit]
    cases negate with
    | true =>
      rw [if_pos rfl, holds_negatedCmp, Bool.true_xor]
      rfl
    | false =>
      rw [if_neg Bool.false_ne_true, Bool.false_xor]
      rfl
  | t :: t' :: rest =>
    have hbit : condBit inputs cond = (t :: t' :: rest).all (termBit inputs) := by
      unfold condBit
      rw [h]
    have hterms : ∀ u ∈ t :: t' :: rest, BindsTerm env inputs u := by
      intro u hu
      exact hbinds.1 u (by rw [h]; exact hu)
    rw [emitCondition_of_two h] at hfresh ⊢
    dsimp only at hfresh ⊢
    cases negate with
    | true =>
      rw [if_pos rfl] at hfresh ⊢
      dsimp only at hfresh ⊢
      apply Reaches.append hfresh
      · exact fun hconjunction => reaches_conjunction hconjunction hterms
      intro mid hext hconjunction hlast
      have htrue := hext _ _ (hbinds.2 rfl (by
        rw [h, List.length_cons, List.length_cons]
        omega))
      apply (reaches_two hlast hconjunction htrue rfl).mono
      intro env' _ hlookup name hname
      rw [← Option.some.inj hname, hlookup, hbit, Bool.xor_comm]
    | false =>
      rw [if_neg Bool.false_ne_true] at hfresh ⊢
      dsimp only at hfresh ⊢
      apply (reaches_conjunction hfresh hterms).mono
      intro env' _ hlookup name hname
      rw [← Option.some.inj hname, hlookup, hbit, Bool.false_xor]

/-! ### Alternatives -/

variable {py : Python}

/-- The conditions of the texts before the first one without an evaluator. -/
def emittedConds (py : Python) (texts : List String) : List (Option Front.Condition) :=
  (texts.map (parsed py)).takeWhile fun cond => !(comparisons cond).isEmpty

theorem emittedConds_cons (h : comparisons (parsed py text) ≠ []) (texts : List String) :
    emittedConds py (text :: texts) = parsed py text :: emittedConds py texts := by
  have hsome : (!(comparisons (parsed py text)).isEmpty) = true := by
    rw [Bool.not_eq_true', List.isEmpty_eq_false_iff]
    exact h
  unfold emittedConds
  rw [List.map_cons, List.takeWhile_cons, hsome]
  rfl

/-- The first of the texts is bound, or has no lines. -/
theorem bindsCond_head
    (h : ∀ cond ∈ emittedConds py (text :: texts), BindsCond env inputs negate cond) :
    BindsCond env inputs negate (parsed py text) := by
  by_cases hnone : comparisons (parsed py text) = []
  · exact bindsCond_of_none hnone
  · apply h
    rw [emittedConds_cons hnone]
    exact List.mem_cons_self

theorem reaches_emitAlternatives :
    ∀ {env : Env} {n : Nat}, mlir.Fresh env (emitAlternatives py step n texts).1 →
      (∀ cond ∈ emittedConds py texts, BindsCond env inputs false cond) →
      mlir.Reaches env (emitAlternatives py step n texts).1 fun env' =>
        ∀ names, (emitAlternatives py step n texts).2 = some names →
          lookupAll env' (names.map Ssa.text) =
            some (texts.map fun text => .i1 (condBit inputs (parsed py text))) := by
  induction texts with
  | nil =>
    intro env n _ _
    apply Reaches.nil
    intro names hnames
    rw [← Option.some.inj hnames]
    rfl
  | cons text rest ih =>
    intro env n hfresh hbinds
    have hfirst := bindsCond_head hbinds
    unfold emitAlternatives at hfresh ⊢
    dsimp only at hfresh ⊢
    cases hname : (emitCondition (parsed py text) ⟨step, some n⟩ false).2 with
    | none =>
      rw [hname] at hfresh
      dsimp only at hfresh ⊢
      apply (reaches_emitCondition hfresh hfirst).mono
      intro env' _ _ names hnames
      cases hnames
    | some name =>
      rw [hname] at hfresh
      dsimp only at hfresh ⊢
      apply Reaches.append hfresh
      · exact fun hcondition => reaches_emitCondition hcondition hfirst
      intro mid hext hlookup hrest
      have hsome : comparisons (parsed py text) ≠ [] := by
        intro hnil
        rw [emitCondition_eq_none.mpr hnil] at hname
        cases hname
      have htail : ∀ cond ∈ emittedConds py rest, BindsCond mid inputs false cond := by
        intro cond hcond
        apply (hbinds cond _).mono hext
        rw [emittedConds_cons hsome]
        exact List.mem_cons_of_mem _ hcond
      apply (ih hrest htail).mono
      intro env' hext' hbits names hnames
      obtain ⟨tail, htail, rfl⟩ := Option.map_eq_some_iff.mp hnames
      have hbit := hlookup name hname
      rw [Bool.false_xor] at hbit
      exact lookupAll_cons (hext' _ _ hbit) (hbits tail htail)

theorem reaches_emitAltCondition (hfresh : mlir.Fresh env (emitAltCondition py texts step).1)
    (hbinds : ∀ cond ∈ emittedConds py texts, BindsCond env inputs false cond) :
    mlir.Reaches env (emitAltCondition py texts step).1 fun env' =>
      ∀ name, (emitAltCondition py texts step).2 = some name →
        env'.lookup name.text =
          some (.i1 (texts.any fun text => condBit inputs (parsed py text))) := by
  unfold emitAltCondition at hfresh ⊢
  dsimp only at hfresh ⊢
  cases hnames : (emitAlternatives py step 0 texts).2 with
  | none =>
    rw [hnames] at hfresh
    dsimp only at hfresh ⊢
    exact (reaches_emitAlternatives hfresh hbinds).mono fun env' _ _ name hname => nomatch hname
  | some names =>
    rw [hnames] at hfresh
    cases names with
    | nil =>
      dsimp only at hfresh ⊢
      exact (reaches_emitAlternatives hfresh hbinds).mono fun env' _ _ name hname => nomatch hname
    | cons first rest =>
      dsimp only at hfresh ⊢
      apply Reaches.append hfresh
      · exact fun halternatives => reaches_emitAlternatives halternatives hbinds
      intro mid hext hall hfold
      have hlookup := hall _ hnames
      cases texts with
      | nil => cases Lib.length_of_lookupAll hlookup
      | cons text texts =>
        obtain ⟨hfirst, htail⟩ := Lib.lookupAll_cons_eq_some.mp hlookup
        have hbits : (texts.map fun text => Bits.i1 (condBit inputs (parsed py text))) =
            (texts.map fun text => condBit inputs (parsed py text)).map .i1 := (List.map_map).symm
        rw [hbits] at htail
        apply (reaches_foldNames (fun a b => rfl) hfold hfirst htail).mono
        intro env' _ hfolded name hname
        rw [← Option.some.inj hname, hfolded, foldl_or, List.any_map, List.any_cons]
        rfl

/-! ### Guards -/

/-- What the guard of a step is made of is bound. -/
def BindsGuard (py : Python) (env : Env) (inputs : String → BitVec 64) (g : StepGuard) : Prop :=
  (∃ flag, env.lookup (Ssa.plain "skip" "" []).text = some (.i32 flag)) ∧
    env.lookup (Ssa.plain "c" "0" []).text = some (.i32 0) ∧
    ∀ cond ∈ emittedConds py g.texts, BindsCond env inputs (match g with
      | .when _ _ => false
      | .until _ => true) cond

theorem BindsGuard.mono {g : StepGuard} (h : BindsGuard py env inputs g)
    (hext : Extends env env') : BindsGuard py env' inputs g := by
  obtain ⟨⟨flag, hflag⟩, hzero, hconds⟩ := h
  exact ⟨⟨flag, hext _ _ hflag⟩, hext _ _ hzero, fun cond hcond => (hconds cond hcond).mono hext⟩

/-- The truth value that decides whether the step runs. -/
def guardBit (py : Python) (inputs : String → BitVec 64) : StepGuard → Bool
  | .when condition alternatives =>
    (condition :: alternatives).any fun text => condBit inputs (parsed py text)
  | .until condition => !condBit inputs (parsed py condition)

/-- **Guards**: the lines of a guard bind a truth value, which is that of its conditions where mode B
can compute all of them. -/
theorem reaches_emitGuard {step : Nat} {g : StepGuard}
    (hfresh : mlir.Fresh env (emitGuard py step g).1) (hbinds : BindsGuard py env inputs g) :
    mlir.Reaches env (emitGuard py step g).1 fun env' =>
      ∀ name, (emitGuard py step g).2 = some name →
        (∃ b, env'.lookup name.text = some (.i1 b)) ∧
          (g.Compiles py → env'.lookup name.text = some (.i1 (guardBit py inputs g))) := by
  obtain ⟨⟨flag, hflag⟩, hzero, hconds⟩ := hbinds
  cases g with
  | «until» condition =>
    have hbit : guardBit py inputs (.until condition) =
        (true ^^ condBit inputs (parsed py condition)) := (Bool.true_xor _).symm
    apply (reaches_emitCondition hfresh (bindsCond_head hconds)).mono
    intro env' _ hlookup name hname
    rw [hbit]
    exact ⟨⟨_, hlookup name hname⟩, fun _ => hlookup name hname⟩
  | «when» condition alternatives =>
    -- the lines before the test of the flag, if there is one
    have hemitted : ∀ {env : Env}, mlir.Fresh env (if alternatives.isEmpty then
          emitCondition (parsed py condition) ⟨step, none⟩ false
        else emitAltCondition py (condition :: alternatives) step).1 →
        (∀ cond ∈ emittedConds py (condition :: alternatives), BindsCond env inputs false cond) →
        mlir.Reaches env (if alternatives.isEmpty then
          emitCondition (parsed py condition) ⟨step, none⟩ false
        else emitAltCondition py (condition :: alternatives) step).1 fun env' =>
        ∀ name, (if alternatives.isEmpty then
          emitCondition (parsed py condition) ⟨step, none⟩ false
        else emitAltCondition py (condition :: alternatives) step).2 = some name →
          env'.lookup name.text =
            some (.i1 (guardBit py inputs (.when condition alternatives))) := by
      cases alternatives with
      | nil =>
        intro env hfresh hconds
        apply (reaches_emitCondition hfresh (bindsCond_head hconds)).mono
        intro env' _ hlookup name hname
        rw [hlookup name hname, Bool.false_xor]
        show _ = some (Bits.i1 (condBit inputs (parsed py condition) || false))
        rw [Bool.or_false]
      | cons text rest => exact fun hfresh hconds => reaches_emitAltCondition hfresh hconds
    have hnone : (if alternatives.isEmpty then
          emitCondition (parsed py condition) ⟨step, none⟩ false
        else emitAltCondition py (condition :: alternatives) step).2 = none →
        ¬(StepGuard.when condition alternatives).Compiles py := by
      intro hnone hcompiles
      cases alternatives with
      | nil => exact hcompiles condition List.mem_cons_self (emitCondition_eq_none.mp hnone)
      | cons text rest =>
        obtain ⟨text', htext', hempty⟩ := List.any_eq_true.mp (emitAltCondition_eq_none.mp hnone)
        exact hcompiles text' htext' (List.isEmpty_iff.mp hempty)
    unfold emitGuard at hfresh ⊢
    dsimp only at hfresh ⊢
    cases hname : (if alternatives.isEmpty then
        emitCondition (parsed py condition) ⟨step, none⟩ false
      else emitAltCondition py (condition :: alternatives) step).2 with
    | some name =>
      rw [hname] at hfresh
      dsimp only at hfresh ⊢
      apply (hemitted hfresh hconds).mono
      intro env' _ hlookup name' hname'
      have hbit := hlookup name' (hname.trans hname')
      exact ⟨⟨_, hbit⟩, fun _ => hbit⟩
    | none =>
      rw [hname] at hfresh
      dsimp only at hfresh ⊢
      apply Reaches.append hfresh
      · exact fun hlines => hemitted hlines hconds
      intro mid hext _ hlast
      apply (reaches_two hlast (hext _ _ hflag) (hext _ _ hzero) rfl).mono
      intro env' _ hlookup name' hname'
      rw [← Option.some.inj hname']
      exact ⟨⟨_, hlookup⟩, fun hcompiles => absurd hcompiles (hnone hname)⟩

end Lnpl.Backend
