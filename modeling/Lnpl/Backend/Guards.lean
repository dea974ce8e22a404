import Lnpl.Backend.Mlir
import Lnpl.Interp.Conditions
import Lnpl.Lib.PyValues
import Mathlib.Data.List.Dedup

/-!
# Compiled guards

How mode B renders the steps of a workflow and the guards of them, and when a guard lets its step
run in mode A.  The document is given as its steps in order; a workflow that compares amounts or
texts is refused before anything is rendered.
-/

namespace Lnpl.Backend

open Front (Python)
open Lib.Py (sortTexts)

/-! ### Steps -/

/-- The guard of a step: the texts of its condition and of the alternatives. -/
inductive StepGuard where
  | when (condition : String) (alternatives : List String)
  | «until» (condition : String)
  deriving DecidableEq

def StepGuard.texts : StepGuard → List String
  | .when condition alternatives => condition :: alternatives
  | .until condition => [condition]

/-- An entry of the op stream: the step's name, the kinds of its effects, its guard. -/
structure StepOp where
  name : String
  effects : List String
  guard : Option StepGuard

section
variable (py : Python)

/-- `_parsed`. -/
def parsed (text : String) : Option Front.Condition :=
  match Front.parseCondition py (some text) with
  | .ok cond => cond
  | .error _ => none

/-- `_comparisons`. -/
def comparisons : Option Front.Condition → List Front.Comparison
  | some (.term (.comparison t)) => [t]
  | some (.and a) => a.terms.filterMap fun
    | .comparison t => some t
    | .numericPredicate _ => none
  | _ => []

/-- `_uses_numeric_predicate`. -/
def usesNumericPredicate : Option Front.Condition → Bool
  | some (.term (.numericPredicate _)) => true
  | some (.and a) => a.terms.any fun
    | .comparison _ => false
    | .numericPredicate _ => true
  | _ => false

/-- The literals of a value, and those that a division needs. -/
def valueLiterals : Front.Value → List Nat
  | .operand (.lit l) => [l.value]
  | .operand (.ref _) => []
  | .arith a =>
    let own := if a.op = .div then [0, 1] else []
    own ++ [a.left, a.right].filterMap fun
      | .lit l => some l.value
      | .ref _ => none

/-- `_literals`. -/
def literals (cond : Option Front.Condition) : List Nat :=
  (comparisons cond).flatMap fun t => valueLiterals t.left ++ valueLiterals t.right

/-- `condition_field_names`. -/
def conditionFieldNames (guards : List (Option StepGuard)) : List String :=
  let texts := guards.flatMap fun guard => guard.toList.flatMap StepGuard.texts
  sortTexts (texts.flatMap fun text => Front.Condition.references (parsed py text)).dedup

/-! ### Operands and terms -/

/-- What the names of a guard carry: the number of the step, and that of the alternative. -/
structure Index where
  step : Nat
  alternative : Option Nat

def Index.name (idx : Index) (word : String) (suffixes : List String) : Ssa :=
  .plain word (toString idx.step) ((idx.alternative.map toString).toList ++ suffixes)

/-- The name of an operand: a parameter, or a constant. -/
def operandName : Front.Operand → Ssa
  | .ref r => .field r.name
  | .lit l => .plain "c" (toString l.value) ["i64"]

/-- `_emit_division`. -/
def emitDivision (left right : Ssa) (idx : Index) (slot : String) : List Instr × Ssa :=
  let isZero := idx.name "z" [slot]
  let safeRight := idx.name "sr" [slot]
  let name := idx.name "v" [slot]
  ([⟨some isZero, .cmpi .eq, [right, .plain "c" "0" ["i64"]]⟩,
      ⟨some safeRight, .select, [isZero, .plain "c" "1" ["i64"], right]⟩,
      ⟨some name, .divsi, [left, safeRight]⟩], name)

/-- `_emit_operand`. -/
def emitOperand (idx : Index) (slot : String) : Front.Value → List Instr × Ssa
  | .operand o => ([], operandName o)
  | .arith a =>
    let left := operandName a.left
    let right := operandName a.right
    let name := idx.name "v" [slot]
    match a.op with
    | .add => ([⟨some name, .addi, [left, right]⟩], name)
    | .sub => ([⟨some name, .subi, [left, right]⟩], name)
    | .mul => ([⟨some name, .muli, [left, right]⟩], name)
    | .div => emitDivision left right idx slot

/-- `_CMP_PRED`. -/
def cmpPred : Front.Comparator → Predicate
  | .lt => .slt
  | .le => .sle
  | .gt => .sgt
  | .ge => .sge
  | .eq => .eq
  | .ne => .ne

/-- `_NEGATED_CMP`. -/
def negatedCmp : Front.Comparator → Predicate
  | .lt => .sge
  | .le => .sgt
  | .gt => .sle
  | .ge => .slt
  | .eq => .ne
  | .ne => .eq

/-- The lines of one comparison, its number being `n`. -/
def emitTerm (idx : Index) (n : Nat) (pred : Predicate) (name : Ssa) (t : Front.Comparison) :
    List Instr :=
  let left := emitOperand idx (toString n ++ "l") t.left
  let right := emitOperand idx (toString n ++ "r") t.right
  left.1 ++ right.1 ++ [⟨some name, .cmpi pred, [left.2, right.2]⟩]

/-- The lines of the comparisons from the `n`-th on, and the names of their truth values. -/
def emitTerms (idx : Index) : Nat → List Front.Comparison → List Instr × List Ssa
  | _, [] => ([], [])
  | n, t :: rest =>
    let name := idx.name "cond" [toString n]
    let tail := emitTerms idx (n + 1) rest
    (emitTerm idx n (cmpPred t.op) name t ++ tail.1, name :: tail.2)

/-- The names of truth values folded by an operation; the results count from `n` on. -/
def foldNames (word : String) (op : Opcode) (idx : Index) : Nat → Ssa → List Ssa → List Instr × Ssa
  | _, folded, [] => ([], folded)
  | n, folded, name :: rest =>
    let next := idx.name word [toString n]
    let tail := foldNames word op idx (n + 1) next rest
    (⟨some next, op, [folded, name]⟩ :: tail.1, tail.2)

/-- `_emit_condition`: the lines, and the name of the truth value. -/
def emitCondition (cond : Option Front.Condition) (idx : Index) (negate : Bool) :
    List Instr × Option Ssa :=
  match comparisons cond with
  | [] => ([], none)
  | [t] =>
    let name := idx.name (if negate then "ucond" else "cond") []
    (emitTerm idx 0 (if negate then negatedCmp t.op else cmpPred t.op) name t, some name)
  | terms =>
    let emitted := emitTerms idx 0 terms
    match emitted.2 with
    | [] => ([], none)
    | first :: rest =>
      let folded := foldNames "and" .andi idx 1 first rest
      if negate then
        let name := idx.name "ucond" []
        (emitted.1 ++ folded.1 ++ [⟨some name, .xori, [folded.2, .plain "true" "" ["i1"]]⟩],
          some name)
      else (emitted.1 ++ folded.1, some folded.2)

/-- The loop of `_emit_alt_condition`, from the `n`-th text on.  The lines of what stands before a
text without an evaluator stay. -/
def emitAlternatives (step : Nat) : Nat → List String → List Instr × Option (List Ssa)
  | _, [] => ([], some [])
  | n, text :: rest =>
    let emitted := emitCondition (parsed py text) ⟨step, some n⟩ false
    match emitted.2 with
    | none => (emitted.1, none)
    | some name =>
      let tail := emitAlternatives step (n + 1) rest
      (emitted.1 ++ tail.1, tail.2.map (name :: ·))

/-- `_emit_alt_condition`. -/
def emitAltCondition (texts : List String) (step : Nat) : List Instr × Option Ssa :=
  let emitted := emitAlternatives py step 0 texts
  match emitted.2 with
  | some (first :: rest) =>
    let folded := foldNames "or" .ori ⟨step, none⟩ 1 first rest
    (emitted.1 ++ folded.1, some folded.2)
  | _ => (emitted.1, none)

/-! ### The function -/

/-- What a guard emits before its step; a `when` without an evaluator tests the flag `skip`. -/
def emitGuard (step : Nat) : StepGuard → List Instr × Option Ssa
  | .when condition alternatives =>
    let emitted :=
      if alternatives.isEmpty then emitCondition (parsed py condition) ⟨step, none⟩ false
      else emitAltCondition py (condition :: alternatives) step
    match emitted.2 with
    | some name => (emitted.1, some name)
    | none =>
      let name := Ssa.plain "skip" (toString step) []
      (emitted.1 ++ [⟨some name, .cmpi .eq, [.plain "skip" "" [], .plain "c" "0" []]⟩], some name)
  | .until condition => emitCondition (parsed py condition) ⟨step, none⟩ true

/-- The call of the runtime for the step and for each of its effects. -/
def stepCalls (step : Nat) (effects : List String) : List Instr :=
  let p := Ssa.plain "p" (toString step) []
  ⟨some (.plain "r" (toString step) []), .callStep, [p, .plain "i" (toString step) []]⟩ ::
    effects.zipIdx.flatMap fun (kind, n) =>
      let k := Ssa.plain "k" (toString step) [toString n]
      [⟨some k, .addressof kind, []⟩, ⟨none, .callEffect, [p, k]⟩]

/-- The lines of one entry. -/
def stepLines (step : Nat) (op : StepOp) : List Line :=
  let head : List Instr :=
    [⟨some (.plain "p" (toString step) []), .addressof op.name, []⟩,
      ⟨some (.plain "i" (toString step) []), .constant (.i32 (BitVec.ofNat 32 step)), []⟩]
  let calls := stepCalls step op.effects
  match op.guard.map (emitGuard py step) with
  | some (emitted, some name) => (head ++ emitted).map .instr ++ [.scfIf name calls]
  | some (emitted, none) => (head ++ emitted ++ calls).map .instr
  | none => (head ++ calls).map .instr

/-- The lines of the entries, numbered from `step` on. -/
def streamLines : Nat → List StepOp → List Line
  | _, [] => []
  | step, op :: rest => stepLines py step op ++ streamLines (step + 1) rest

/-- An `until` of several terms is negated as a whole. -/
def negatesAnd (op : StepOp) : Bool :=
  match op.guard with
  | some (.until condition) =>
    match parsed py condition with
    | some (.and _) => true
    | _ => false
  | _ => false

/-- The constants that stand before the steps. -/
def constantLines (ops : List StepOp) : List Instr :=
  let texts := ops.flatMap fun op => op.guard.toList.flatMap StepGuard.texts
  let values := (texts.flatMap fun text => literals (parsed py text)).dedup
  [⟨some (.plain "c" "0" []), .constant (.i32 0), []⟩,
      ⟨some (.plain "c" "1" []), .constant (.i32 1), []⟩] ++
    (values.insertionSort (· ≤ ·)).map (fun value =>
      ⟨some (.plain "c" (toString value) ["i64"]), .constant (.i64 (BitVec.ofNat 64 value)), []⟩) ++
    if ops.any (negatesAnd py) then
      [⟨some (.plain "true" "" ["i1"]), .constant (.i1 true), []⟩]
    else []

/-- What `_lnpl_ops` hands to the renderer: the entries up to the first failure, with the guards of
the steps behind it, whose fields are parameters all the same.  A guard with a numeric-shape
predicate is refused. -/
structure Stream where
  ops : List StepOp
  behind : List (Option StepGuard)
  failed : Bool
  compiled : ∀ op ∈ ops, ∀ guard ∈ op.guard, ∀ text ∈ guard.texts,
    usesNumericPredicate (parsed py text) = false

variable {py}

def Stream.fields (s : Stream py) : List String :=
  conditionFieldNames py (s.ops.map StepOp.guard ++ s.behind)

/-- `_render_std`. -/
def renderStd (s : Stream py) : Func where
  params := .plain "skip" "" [] :: s.fields.map .field
  lines := (constantLines py s.ops).map .instr ++ streamLines py 1 s.ops
  result := if s.failed then .plain "c" "1" [] else .plain "c" "0" []

/-! ### The two modes -/

/-- Every text of the guard has an evaluator in mode B. -/
def StepGuard.Compiles (py : Python) (g : StepGuard) : Prop :=
  ∀ text ∈ g.texts, comparisons (parsed py text) ≠ []

/-- Whether mode A runs the step, in the first round of an `until`: all texts are evaluated. -/
def StepGuard.letsRun (py : Python) (ops : Interp.JsonOps) (scope : Interp.Scope) :
    StepGuard → Except Interp.EvalFault Bool
  | .when condition alternatives => do
    let holds ← (condition :: alternatives).mapM fun text =>
      Interp.conditionHolds py ops [] text scope
    return holds.any id
  | .until condition => do
    let holds ← Interp.conditionHolds py ops [] condition scope
    return !holds

/-- The arguments of `lnpl_run`. -/
def Stream.args (s : Stream py) (skip : BitVec 32) (inputs : String → BitVec 64) : List Bits :=
  .i32 skip :: s.fields.map fun name => .i64 (inputs name)

/-- The references are bound to 64-bit numbers. -/
def Stream.Binds (s : Stream py) (scope : Interp.Scope) (inputs : String → BitVec 64) : Prop :=
  ∀ name ∈ s.fields, Interp.resolveReference (Interp.refOf name) scope = .int (inputs name).toInt

/-- **Compiled guards.**  Distinct references are distinct parameters; every name is defined exactly
once and before its uses; a run is stopped by nothing, undefined behaviour included, whatever the
parameters are; and where mode A decides a guard, the truth value that its lines compute is mode
A's. -/
structure CompilesGuards (ops : Interp.JsonOps) (s : Stream py) : Prop where
  parameters : ∀ a ∈ s.fields, ∀ b ∈ s.fields, fieldIdent a = fieldIdent b → a = b
  once : (renderStd s).DefinesOnce
  first : (renderStd s).DefinesFirst
  runs : ∀ skip inputs, ∃ env, (renderStd s).run (s.args skip inputs) = .ok env
  agrees : ∀ skip inputs env, (renderStd s).run (s.args skip inputs) = .ok env →
    ∀ scope, s.Binds scope inputs →
      ∀ (n : Nat) op, s.ops[n]? = some op → ∀ guard ∈ op.guard, guard.Compiles py →
        ∃ name, (emitGuard py (n + 1) guard).2 = some name ∧
          ∀ b, guard.letsRun py ops scope = .ok b → env.lookup name.text = some (.i1 b)

/-! ### What may be compiled -/

/-- The words of the names without an underscore that a guard defines. -/
def plainWords (py : Python) : StepGuard → List String
  | .when condition [] =>
    match comparisons (parsed py condition) with
    | [] => ["skip"]
    | [_] => ["cond"]
    | _ => []
  | .when condition alternatives =>
    if (condition :: alternatives).any fun text => (comparisons (parsed py text)).isEmpty then
      ["skip"]
    else []
  | .until condition => if (comparisons (parsed py condition)).isEmpty then [] else ["ucond"]

/-- The names without an underscore that an entry defines. -/
def plainNames (py : Python) (step : Nat) (op : StepOp) : List String :=
  (["p", "i", "r"] ++ op.guard.toList.flatMap (plainWords py)).map (· ++ toString step)

/-- The conditions of a guard that are emitted: those before the first one without an evaluator. -/
def StepGuard.emitted (py : Python) (g : StepGuard) : List (Option Front.Condition) :=
  (g.texts.map (parsed py)).takeWhile fun cond => !(comparisons cond).isEmpty

/-- A value divides a reference by another one. -/
def dividesReferences : Front.Value → Bool
  | .arith ⟨.ref l, .div, .ref r⟩ => l ≠ r
  | _ => false

/-- No reference is spelt like a name that the function defines, and no emitted comparison divides a
reference by another one. -/
structure Compilable (s : Stream py) : Prop where
  parameters : ∀ name ∈ s.fields, name ∉ ["skip", "c0", "c1"]
  names : ∀ name ∈ s.fields, ∀ (n : Nat) op, s.ops[n]? = some op →
    name ∉ plainNames py (n + 1) op
  divisions : ∀ op ∈ s.ops, ∀ guard ∈ op.guard, ∀ cond ∈ guard.emitted py,
    ∀ t ∈ comparisons cond, dividesReferences t.left = false ∧ dividesReferences t.right = false

end

end Lnpl.Backend
