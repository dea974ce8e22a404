import Lnpl.Lib.StraightLine

/-!
# The standard-dialect module

What the rendered function is made of: names, operations on 64-bit numbers and truth values, and
`scf.if` regions that call the runtime.  Numbers wrap; a signed division by zero, or of the smallest
number by -1, is undefined.
-/

namespace Lnpl.Backend

/-! ### Names -/

/-- `_field_ident`. -/
def fieldIdent (name : String) : String :=
  String.ofList (name.toList.flatMap fun ch => if ch = '.' then ['_', '_'] else [ch])

/-- A name of the function: the parameter of a condition field, or one made of a word, a number and
what follows underscores. -/
inductive Ssa where
  | field (name : String)
  | plain (word number : String) (suffixes : List String)
  deriving DecidableEq

/-- The name as it is printed, without `%`. -/
def Ssa.text : Ssa → String
  | .field name => fieldIdent name
  | .plain word number suffixes => word ++ number ++ String.join (suffixes.map ("_" ++ ·))

/-! ### Operations -/

inductive Bits where
  | i1 (b : Bool)
  | i32 (n : BitVec 32)
  | i64 (n : BitVec 64)
  | ptr (text : String)
  /-- the result of a call that returns nothing -/
  | unit
  deriving DecidableEq

/-- Why a run stops. -/
inductive Stop where
  | unbound
  | illTyped
  | undefined
  deriving DecidableEq

inductive Predicate where
  | slt
  | sle
  | sgt
  | sge
  | eq
  | ne
  deriving DecidableEq

def Predicate.holds {w : Nat} (pred : Predicate) (a b : BitVec w) : Bool :=
  match pred with
  | .slt => a.slt b
  | .sle => a.sle b
  | .sgt => b.slt a
  | .sge => b.sle a
  | .eq => a == b
  | .ne => a != b

inductive Opcode where
  | constant (v : Bits)
  /-- `llvm.mlir.addressof` of the global of a text -/
  | addressof (text : String)
  | addi
  | subi
  | muli
  | divsi
  | cmpi (pred : Predicate)
  | select
  | andi
  | ori
  | xori
  /-- `lnpl_step`, which returns 0 -/
  | callStep
  /-- `lnpl_effect` -/
  | callEffect
  deriving DecidableEq

/-- What an operation computes. -/
def Opcode.eval : Opcode → List Bits → Except Stop Bits
  | .constant v, [] => .ok v
  | .addressof text, [] => .ok (.ptr text)
  | .addi, [.i64 a, .i64 b] => .ok (.i64 (a + b))
  | .subi, [.i64 a, .i64 b] => .ok (.i64 (a - b))
  | .muli, [.i64 a, .i64 b] => .ok (.i64 (a * b))
  | .divsi, [.i64 a, .i64 b] =>
    if b = 0 ∨ (a = BitVec.intMin 64 ∧ b = -1) then .error .undefined else .ok (.i64 (a.sdiv b))
  | .cmpi pred, [.i64 a, .i64 b] => .ok (.i1 (pred.holds a b))
  | .cmpi pred, [.i32 a, .i32 b] => .ok (.i1 (pred.holds a b))
  | .select, [.i1 c, a, b] => .ok (if c then a else b)
  | .andi, [.i1 a, .i1 b] => .ok (.i1 (a && b))
  | .ori, [.i1 a, .i1 b] => .ok (.i1 (a || b))
  | .xori, [.i1 a, .i1 b] => .ok (.i1 (a ^^ b))
  | .callStep, [.ptr _, .i32 _] => .ok (.i32 0)
  | .callEffect, [.ptr _, .ptr _] => .ok .unit
  | _, _ => .error .illTyped

/-! ### Functions -/

abbrev Instr := Lib.Instr Ssa Opcode

/-- The names that are bound, by their texts. -/
abbrev Env := List (String × Bits)

def mlir : Lib.Machine Ssa String Opcode Bits Stop where
  text := Ssa.text
  eval := Opcode.eval
  unbound := .unbound

inductive Line where
  | instr (i : Instr)
  | scfIf (condition : Ssa) (body : List Instr)

/-- What stands between the braces of `func.func @lnpl_run`. -/
structure Func where
  params : List Ssa
  lines : List Line
  result : Ssa

/-- The lines of a function; what a region binds is not seen behind it. -/
def runLines (env : Env) : List Line → Except Stop Env
  | [] => .ok env
  | .instr i :: rest =>
    match mlir.exec env i with
    | .error e => .error e
    | .ok env => runLines env rest
  | .scfIf condition body :: rest =>
    match env.lookup condition.text with
    | none => .error .unbound
    | some (.i1 true) =>
      match mlir.run env body with
      | .error e => .error e
      | .ok _ => runLines env rest
    | some (.i1 false) => runLines env rest
    | some _ => .error .illTyped

/-- The names that the lines define, those in regions among them. -/
def definitions (lines : List Line) : List String :=
  lines.flatMap fun
    | .instr i => mlir.results [i]
    | .scfIf _ body => mlir.results body

/-- Every name is defined before it is used, the result behind the lines; a region sees what stands
above it. -/
def DefinedLines (result : Ssa) (known : List String) : List Line → Prop
  | [] => result.text ∈ known
  | .instr i :: rest =>
    mlir.Defined known [i] ∧ DefinedLines result (known ++ mlir.results [i]) rest
  | .scfIf condition body :: rest =>
    condition.text ∈ known ∧ mlir.Defined known body ∧ DefinedLines result known rest

namespace Func

variable (f : Func)

/-- Every name is defined exactly once. -/
def DefinesOnce : Prop := (f.params.map Ssa.text ++ definitions f.lines).Nodup

/-- Every name is defined before its uses. -/
def DefinesFirst : Prop := DefinedLines f.result (f.params.map Ssa.text) f.lines

/-- A run of the function, up to its return. -/
def run (args : List Bits) : Except Stop Env :=
  runLines ((f.params.map Ssa.text).zip args) f.lines

end Func

end Lnpl.Backend
