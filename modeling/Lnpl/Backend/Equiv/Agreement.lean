import Lnpl.Backend.Equiv.Conditions
import Lnpl.Backend.Equiv.Parameters

/-!
# The two evaluations of a guard

Mode A evaluates on integers and stops where a result leaves the 64-bit range or a divisor is zero;
mode B wraps and replaces.  Where mode A goes through, both have the same numbers.
-/

namespace Lnpl.Backend

open Front (Python)
open Lib (bind_eq_ok pure_eq_ok)

variable {py : Python} {ops : Interp.JsonOps} {condition : String} {scope : Interp.Scope}
  {inputs : String → BitVec 64}

/-! ### Numbers -/

variable {n : Int} {v : Front.Value} {t : Front.Comparison} {b : Bool}

/-- A number that `_checked` lets pass. -/
theorem of_checked {m : Int} {name : String} (h : Interp.checked py n name condition = .ok m) :
    m = n ∧ -2 ^ 63 ≤ n ∧ n ≤ 2 ^ 63 - 1 := by
  unfold Interp.checked Interp.int64Min Interp.int64Max at h
  by_cases hrange : n < -2 ^ 63 ∨ 2 ^ 63 - 1 < n
  · rw [if_pos hrange] at h
    cases h
  · rw [if_neg hrange] at h
    rw [not_or] at hrange
    exact ⟨(Except.ok.inj h).symm, Int.not_lt.mp hrange.1, Int.not_lt.mp hrange.2⟩

theorem checked_of_toInt (b : BitVec 64) (name : String) :
    Interp.checked py b.toInt name condition = .ok b.toInt := by
  have hlow : -2 ^ 63 ≤ b.toInt := b.le_toInt
  have hhigh : b.toInt < 2 ^ 63 := b.toInt_lt
  unfold Interp.checked Interp.int64Min Interp.int64Max
  apply if_neg
  rintro (h | h)
  · omega
  · omega

/-- What is in the range wraps to itself. -/
theorem bmod_of_range (hlow : -2 ^ 63 ≤ n) (hhigh : n ≤ 2 ^ 63 - 1) : n.bmod (2 ^ 64) = n := by
  apply Int.bmod_eq_of_le
  · omega
  · omega

theorem toInt_literal {value : Nat} (h : value ≤ Front.int64Max) :
    (BitVec.ofNat 64 value).toInt = value := by
  unfold Front.int64Max at h
  rw [BitVec.toInt_ofNat']
  apply bmod_of_range
  · omega
  · omega

/-- The literals of a value fit 64 bits. -/
def SmallLiterals (v : Front.Value) : Prop :=
  ∀ l, .lit l ∈ v.operands → l.value ≤ Front.int64Max

theorem smallLiterals_of_spelled (h : v.Spelled py) : SmallLiterals v := by
  intro l hl
  rcases (Front.parseOperand_eq_ok py).mp ((h _ hl).parse none) with
    ⟨n, -, -, hn, heq⟩ | ⟨d, -, hd, heq⟩ | ⟨-, -, -, heq⟩
  · cases heq
    exact hn
  · cases heq
    exact py.scanDuration_le hd
  · cases heq

/-! ### Values -/

/-- The references are bound to the numbers. -/
def BindsNames (scope : Interp.Scope) (inputs : String → BitVec 64) (names : List String) : Prop :=
  ∀ name ∈ names, Interp.resolveReference (Interp.refOf name) scope = .int (inputs name).toInt

theorem evalOperand_eq {o : Front.Operand} (hrefs : BindsNames scope inputs o.references)
    (hlit : ∀ l, o = .lit l → l.value ≤ Front.int64Max) :
    Interp.evalOperand py ops condition scope o =
      .ok (some (.number (operandBits inputs o).toInt)) := by
  cases o with
  | lit l =>
    show Except.ok (some (Interp.Quantity.number l.value)) = _
    rw [← toInt_literal (hlit l rfl)]
    rfl
  | ref r =>
    have hresolve := hrefs r.name List.mem_cons_self
    unfold Interp.evalOperand
    dsimp only
    rw [hresolve]
    show some <$> (Interp.Quantity.number <$>
      Interp.checked py (inputs r.name).toInt r.name condition) = _
    rw [checked_of_toInt]
    rfl

/-- The arithmetic of mode A that goes through is that of mode B. -/
theorem evalArith_eq {a : Front.Arith} {x y : BitVec 64}
    (h : Interp.evalArith py a x.toInt y.toInt condition = .ok n) :
    n = (match a.op with
      | .add => x + y
      | .sub => x - y
      | .mul => x * y
      | .div => x.sdiv (if y == 0 then 1 else y)).toInt := by
  unfold Interp.evalArith at h
  dsimp only at h
  cases hop : a.op with
  | add =>
    rw [hop] at h
    obtain ⟨rfl, hlow, hhigh⟩ := of_checked h
    exact ((BitVec.toInt_add x y).trans (bmod_of_range hlow hhigh)).symm
  | sub =>
    rw [hop] at h
    obtain ⟨rfl, hlow, hhigh⟩ := of_checked h
    exact (BitVec.toInt_sub.trans (bmod_of_range hlow hhigh)).symm
  | mul =>
    rw [hop] at h
    obtain ⟨rfl, hlow, hhigh⟩ := of_checked h
    exact ((BitVec.toInt_mul x y).trans (bmod_of_range hlow hhigh)).symm
  | div =>
    rw [hop] at h
    dsimp only at h ⊢
    by_cases hzero : y.toInt = 0
    · rw [if_pos hzero] at h
      cases h
    · rw [if_neg hzero] at h
      obtain ⟨rfl, hlow, hhigh⟩ := of_checked h
      have hne : ¬(y == 0) = true := by
        intro heq
        rw [beq_iff_eq.mp heq] at hzero
        exact hzero rfl
      rw [if_neg hne]
      exact ((BitVec.toInt_sdiv x y).trans (bmod_of_range hlow hhigh)).symm

theorem evalValue_eq {q : Option Interp.Quantity} (hrefs : BindsNames scope inputs v.references)
    (hlit : SmallLiterals v) (h : Interp.evalValue py ops condition scope v = .ok q) :
    q = some (.number (valueBits inputs v).toInt) := by
  cases v with
  | operand o =>
    have heval : Interp.evalOperand py ops condition scope o = .ok q := h
    rw [evalOperand_eq hrefs fun l hl => hlit l (by rw [hl]; exact List.mem_cons_self)] at heval
    exact (Except.ok.inj heval).symm
  | arith a =>
    have hleft := @evalOperand_eq py ops condition scope inputs a.left
      (fun name hname => hrefs name (List.mem_append_left _ hname))
      (fun l hl => hlit l (by rw [← hl]; exact List.mem_cons_self))
    have hright := @evalOperand_eq py ops condition scope inputs a.right
      (fun name hname => hrefs name (List.mem_append_right _ hname))
      (fun l hl => hlit l (by rw [← hl]; exact List.mem_cons_of_mem _ List.mem_cons_self))
    unfold Interp.evalValue at h
    obtain ⟨l, hl, h⟩ := bind_eq_ok.mp h
    obtain ⟨r, hr, h⟩ := bind_eq_ok.mp h
    rw [← Except.ok.inj (hleft.symm.trans hl), ← Except.ok.inj (hright.symm.trans hr)] at h
    dsimp only at h
    obtain ⟨n, hn, h⟩ := bind_eq_ok.mp h
    rw [← pure_eq_ok.mp h, evalArith_eq hn]
    rfl

/-! ### Comparisons -/

theorem holds_cmpPred (op : Front.Comparator) (x y : BitVec 64) :
    (cmpPred op).holds x y = Interp.compareNumbers op x.toInt y.toInt := by
  cases op with
  | lt => rfl
  | le => rfl
  | gt => rfl
  | ge => rfl
  | eq =>
    show (x == y) = decide (x.toInt = y.toInt)
    rw [Bool.eq_iff_iff, beq_iff_eq, decide_eq_true_iff, BitVec.toInt_inj]
  | ne =>
    show (x != y) = decide (x.toInt ≠ y.toInt)
    rw [Bool.eq_iff_iff, bne_iff_ne, decide_eq_true_iff, Ne, Ne, BitVec.toInt_inj]

theorem comparisonHolds_eq
    (hrefs : BindsNames scope inputs (t.left.references ++ t.right.references))
    (hleft : SmallLiterals t.left) (hright : SmallLiterals t.right)
    (h : Interp.comparisonHolds py ops [] condition scope t = .ok b) : b = termBit inputs t := by
  have htext : Interp.isTextTerm [] t = false := by
    unfold Interp.isTextTerm
    rw [List.any_eq_false.mpr, Bool.and_false]
    intro v _ hv
    cases v with
    | operand o =>
      cases o with
      | ref r => cases hv
      | lit l => cases hv
    | arith a => cases hv
  unfold Interp.comparisonHolds at h
  rw [htext] at h
  obtain ⟨l, hl, h⟩ := bind_eq_ok.mp h
  obtain ⟨r, hr, h⟩ := bind_eq_ok.mp h
  have hlq := evalValue_eq (fun name hname => hrefs name (List.mem_append_left _ hname)) hleft hl
  have hrq := evalValue_eq (fun name hname => hrefs name (List.mem_append_right _ hname)) hright hr
  rw [hlq, hrq] at h
  rw [← pure_eq_ok.mp h]
  exact (holds_cmpPred t.op _ _).symm

/-! ### Conditions -/

theorem termHolds_eq {u : Front.Term} (hu : u = .comparison t) (hspelled : u.Spelled py)
    (hrefs : BindsNames scope inputs u.references)
    (h : Interp.termHolds py ops [] condition scope u = .ok b) : b = termBit inputs t := by
  rw [hu] at hspelled hrefs h
  exact comparisonHolds_eq hrefs (smallLiterals_of_spelled hspelled.1)
    (smallLiterals_of_spelled hspelled.2) h

/-- The terms of an `and`, all of them comparisons. -/
theorem mapM_termHolds_eq {terms : List Front.Term} :
    ∀ {bits : List Bool}, (∀ u ∈ terms, u.Spelled py) →
      (∀ u ∈ terms, BindsNames scope inputs u.references) →
      (∀ u ∈ terms, ∃ t, u = .comparison t) →
      terms.mapM (Interp.termHolds py ops [] condition scope) = .ok bits →
      bits = (terms.filterMap fun
        | .comparison t => some t
        | .numericPredicate _ => none).map (termBit inputs) := by
  induction terms with
  | nil =>
    intro bits _ _ _ h
    rw [List.mapM_nil] at h
    exact (pure_eq_ok.mp h).symm
  | cons u terms ih =>
    intro bits hspelled hrefs hall h
    obtain ⟨t, ht⟩ := hall u List.mem_cons_self
    rw [List.mapM_cons] at h
    obtain ⟨b, hb, h⟩ := bind_eq_ok.mp h
    obtain ⟨rest, hrest, h⟩ := bind_eq_ok.mp h
    have hbit := termHolds_eq ht (hspelled u List.mem_cons_self) (hrefs u List.mem_cons_self) hb
    have htail := ih (fun v hv => hspelled v (List.mem_cons_of_mem u hv))
      (fun v hv => hrefs v (List.mem_cons_of_mem u hv))
      (fun v hv => hall v (List.mem_cons_of_mem u hv)) hrest
    rw [← pure_eq_ok.mp h, hbit, htail, ht]
    rfl

/-- **Conditions**: where mode A decides a condition of comparisons, mode B has its truth value. -/
theorem conditionHolds_eq {text : String} (hnumeric : usesNumericPredicate (parsed py text) = false)
    (hcompiles : comparisons (parsed py text) ≠ [])
    (hrefs : BindsNames scope inputs (Front.Condition.references (parsed py text)))
    (h : Interp.conditionHolds py ops [] text scope = .ok b) :
    b = condBit inputs (parsed py text) := by
  have hparsed : ∃ cond, parsed py text = some cond ∧
      Interp.parsedHolds py ops [] text scope cond = .ok b := by
    unfold Interp.conditionHolds at h
    unfold parsed at hcompiles ⊢
    cases hparse : Front.parseCondition py (some text) with
    | error e =>
      rw [hparse] at hcompiles
      exact absurd rfl hcompiles
    | ok cond =>
      rw [hparse] at h hcompiles
      cases cond with
      | none => exact absurd rfl hcompiles
      | some cond => exact ⟨cond, rfl, h⟩
  obtain ⟨cond, hcond, h⟩ := hparsed
  have hspelled := spelled_of_parsed hcond
  rw [hcond] at hnumeric hcompiles hrefs ⊢
  cases cond with
  | presence p => exact absurd rfl hcompiles
  | term u =>
    cases u with
    | comparison t =>
      have hbit := termHolds_eq rfl hspelled hrefs h
      rw [hbit]
      exact (Bool.and_true _).symm
    | numericPredicate p => cases hnumeric
  | and a =>
    obtain ⟨bits, hbits, h⟩ := bind_eq_ok.mp h
    have hall : ∀ u ∈ a.terms, ∃ t, u = Front.Term.comparison t := by
      intro u hu
      cases u with
      | comparison t => exact ⟨t, rfl⟩
      | numericPredicate p =>
        have huses : usesNumericPredicate (some (.and a)) = true := List.any_eq_true.mpr ⟨_, hu, rfl⟩
        rw [huses] at hnumeric
        cases hnumeric
    have hrefs' : ∀ u ∈ a.terms, BindsNames scope inputs u.references := fun u hu name hname =>
      hrefs name (List.mem_flatMap.mpr ⟨u, hu, hname⟩)
    rw [← pure_eq_ok.mp h, mapM_termHolds_eq hspelled hrefs' hall hbits, List.all_map]
    rfl

/-- **Guards**: where mode A decides a guard that mode B can compute, the decision is mode B's. -/
theorem letsRun_eq {g : StepGuard}
    (hnumeric : ∀ text ∈ g.texts, usesNumericPredicate (parsed py text) = false)
    (hcompiles : g.Compiles py) (hrefs : ∀ text ∈ g.texts,
      BindsNames scope inputs (Front.Condition.references (parsed py text)))
    (h : g.letsRun py ops scope = .ok b) : b = guardBit py inputs g := by
  cases g with
  | «until» condition =>
    obtain ⟨holds, hholds, h⟩ := bind_eq_ok.mp h
    rw [← pure_eq_ok.mp h, conditionHolds_eq (hnumeric condition List.mem_cons_self)
      (hcompiles condition List.mem_cons_self) (hrefs condition List.mem_cons_self) hholds]
    rfl
  | «when» condition alternatives =>
    have hall : ∀ (texts : List String) {bits : List Bool},
        (∀ text ∈ texts, text ∈ condition :: alternatives) →
        (texts.mapM fun text => Interp.conditionHolds py ops [] text scope) = .ok bits →
        bits = texts.map fun text => condBit inputs (parsed py text) := by
      intro texts
      induction texts with
      | nil =>
        intro bits _ h
        rw [List.mapM_nil] at h
        exact (pure_eq_ok.mp h).symm
      | cons text texts ih =>
        intro bits hmem h
        rw [List.mapM_cons] at h
        obtain ⟨bit, hbit, h⟩ := bind_eq_ok.mp h
        obtain ⟨rest, hrest, h⟩ := bind_eq_ok.mp h
        have htext := hmem text List.mem_cons_self
        rw [← pure_eq_ok.mp h, ih (fun t ht => hmem t (List.mem_cons_of_mem text ht)) hrest,
          conditionHolds_eq (hnumeric text htext) (hcompiles text htext) (hrefs text htext) hbit]
        rfl
    obtain ⟨holds, hholds, h⟩ := bind_eq_ok.mp h
    rw [← pure_eq_ok.mp h, hall _ (fun _ ht => ht) hholds, List.any_map]
    rfl

end Lnpl.Backend
