import Lnpl.Backend.Equiv.Agreement
import Lnpl.Backend.Equiv.Rendered
import Lnpl.Lib.Assignments

/-!
# Compiled guards

The rendered function runs with every parameter and computes mode A's truth values iff no reference
is spelt like a name of the function and no reference is divided by another one.
-/

namespace Lnpl.Backend

open Front (Python)
open Lib (lookupAll lookupAll_cons)
open Lib.Machine (Reaches)

variable {py : Python} {s : Stream py} {env env' : Env} {skip : BitVec 32}
  {inputs : String → BitVec 64}

/-! ### The parameters and the constants -/

/-- What is bound when the function is entered. -/
def entryEnv (s : Stream py) (skip : BitVec 32) (inputs : String → BitVec 64) : Env :=
  ((renderStd s).params.map Ssa.text).zip (s.args skip inputs)

theorem entryEnv_eq (s : Stream py) (skip : BitVec 32) (inputs : String → BitVec 64) :
    entryEnv s skip inputs = ((Ssa.plain "skip" "" []).text, .i32 skip) ::
      s.fields.map fun name => (fieldIdent name, .i64 (inputs name)) := by
  show ((Ssa.plain "skip" "" []).text, _) ::
    List.zip ((s.fields.map Ssa.field).map Ssa.text)
      (s.fields.map fun name => Bits.i64 (inputs name)) = _
  rw [List.map_map, List.zip_map']
  rfl

theorem keys_entryEnv (s : Stream py) (skip : BitVec 32) (inputs : String → BitVec 64) :
    (entryEnv s skip inputs).map Prod.fst = (renderStd s).params.map Ssa.text := by
  rw [entryEnv_eq, List.map_cons, List.map_map]
  show _ = (Ssa.plain "skip" "" []).text :: (s.fields.map Ssa.field).map Ssa.text
  rw [List.map_map]
  rfl

theorem freshLines_entryEnv (h : (renderStd s).DefinesOnce) :
    FreshLines (entryEnv s skip inputs) (renderStd s).lines := by
  unfold FreshLines
  rw [keys_entryEnv]
  exact h

variable {name : String} {value step : Nat} {lines : List Line}

theorem lookup_entryEnv (h : (renderStd s).DefinesOnce) (hname : name ∈ s.fields) :
    (entryEnv s skip inputs).lookup (fieldIdent name) = some (.i64 (inputs name)) := by
  apply Lib.lookup_of_nodup
  · rw [keys_entryEnv]
    exact (List.nodup_append.mp h).1
  · rw [entryEnv_eq]
    exact List.mem_cons_of_mem _ (List.mem_map_of_mem hname)

/-- The constants with their values. -/
def constantPairs (py : Python) (ops : List StepOp) : List (Ssa × Bits) :=
  [(.plain "c" "0" [], .i32 0), (.plain "c" "1" [], .i32 1)] ++
    ((constantValues py ops).map (fun value =>
      (constantName value, Bits.i64 (BitVec.ofNat 64 value))) ++
    if ops.any (negatesAnd py) then [(.plain "true" "" ["i1"], .i1 true)] else [])

theorem constantLines_eq (ops : List StepOp) : constantLines py ops =
    (constantPairs py ops).map fun p => ⟨some p.1, .constant p.2, []⟩ := by
  unfold constantLines constantPairs
  dsimp only
  rw [List.map_append, List.map_append, List.map_map, List.append_assoc]
  congr 2
  cases ops.any (negatesAnd py) with
  | true => rfl
  | false => rfl

/-- Constants are bound to their values. -/
theorem reaches_constants {pairs : List (Ssa × Bits)} :
    ∀ {env : Env}, mlir.Fresh env (pairs.map fun p => ⟨some p.1, .constant p.2, []⟩) →
      mlir.Reaches env (pairs.map fun p => ⟨some p.1, .constant p.2, []⟩) fun env' =>
        ∀ p ∈ pairs, env'.lookup p.1.text = some p.2 := by
  induction pairs with
  | nil => exact fun _ => Reaches.nil fun p hp => nomatch hp
  | cons p pairs ih =>
    intro env hfresh
    have happend : mlir.Fresh env ([⟨some p.1, .constant p.2, []⟩] ++
        pairs.map fun p => ⟨some p.1, .constant p.2, []⟩) := hfresh
    show mlir.Reaches env ([⟨some p.1, .constant p.2, []⟩] ++
        pairs.map fun p => ⟨some p.1, .constant p.2, []⟩) _
    apply Reaches.append happend
    · exact fun hone => Reaches.named hone rfl rfl rfl
    intro mid hext hp hrest
    apply (ih hrest).mono
    intro env' hext' hpairs q hq
    rcases List.mem_cons.mp hq with rfl | hq
    · exact hext' _ _ hp
    · exact hpairs q hq

/-- The parameters and the constants are bound. -/
def BindsStart (s : Stream py) (skip : BitVec 32) (inputs : String → BitVec 64) (env : Env) : Prop :=
  env.lookup (Ssa.plain "skip" "" []).text = some (.i32 skip) ∧
    (∀ name ∈ s.fields, env.lookup (fieldIdent name) = some (.i64 (inputs name))) ∧
      ∀ p ∈ constantPairs py s.ops, env.lookup p.1.text = some p.2

theorem reaches_constantLines (h : (renderStd s).DefinesOnce)
    (hfresh : mlir.Fresh (entryEnv s skip inputs) (constantLines py s.ops)) :
    mlir.Reaches (entryEnv s skip inputs) (constantLines py s.ops) (BindsStart s skip inputs) := by
  rw [constantLines_eq] at hfresh ⊢
  apply (reaches_constants hfresh).mono
  intro env' hext hpairs
  refine ⟨?_, fun name hname => hext _ _ (lookup_entryEnv h hname), hpairs⟩
  apply hext
  rw [entryEnv_eq]
  exact List.lookup_cons_self

/-! ### What the guards need -/

variable {op : StepOp} {g : StepGuard} {cond : Option Front.Condition} {t : Front.Comparison}
  {v : Front.Value}

/-- A comparison of an emitted condition is spelled, and its references are those of a text. -/
theorem of_emitted (hcond : cond ∈ emittedConds py g.texts) (ht : t ∈ comparisons cond) :
    (t.left.Spelled py ∧ t.right.Spelled py) ∧ ∃ text ∈ g.texts,
      t.left.references ++ t.right.references ⊆ Front.Condition.references (parsed py text) := by
  obtain ⟨text, htext, rfl⟩ := List.mem_map.mp ((List.takeWhile_sublist _).subset hcond)
  cases hparsed : parsed py text with
  | none =>
    rw [hparsed] at ht
    exact absurd ht List.not_mem_nil
  | some cond =>
    have hspelled := spelled_of_parsed hparsed
    rw [hparsed] at ht
    cases cond with
    | presence p => exact absurd ht List.not_mem_nil
    | term u =>
      cases u with
      | comparison t' =>
        rw [List.mem_singleton.mp ht]
        exact ⟨hspelled, text, htext, by rw [hparsed]; exact fun _ => id⟩
      | numericPredicate p => exact absurd ht List.not_mem_nil
    | and a =>
      obtain ⟨u, hu, hut⟩ := List.mem_filterMap.mp ht
      have hterm := hspelled u hu
      cases u with
      | comparison t' =>
        rw [← Option.some.inj hut]
        refine ⟨hterm, text, htext, fun name hname => ?_⟩
        rw [hparsed]
        exact List.mem_flatMap.mpr ⟨_, hu, hname⟩
      | numericPredicate p => cases hut

/-- A division overflows only where a reference is divided by another one. -/
theorem safe_of_not_divides (hsmall : SmallLiterals v) (h : dividesReferences v = false) :
    Safe inputs v := by
  cases v with
  | operand o => trivial
  | arith a =>
    obtain ⟨left, op, right⟩ := a
    cases op with
    | add => trivial
    | sub => trivial
    | mul => trivial
    | div =>
      rintro ⟨hleft, hright⟩
      cases left with
      | lit l =>
        have hvalue := toInt_literal (hsmall l List.mem_cons_self)
        rw [show BitVec.ofNat 64 l.value = BitVec.intMin 64 from hleft] at hvalue
        have hmin : (BitVec.intMin 64).toInt = -2 ^ 63 := by decide
        omega
      | ref l =>
        cases right with
        | lit r =>
          have hvalue := toInt_literal (hsmall r (List.mem_cons_of_mem _ List.mem_cons_self))
          rw [show BitVec.ofNat 64 r.value = -1 from hright] at hvalue
          have hminus : (-1 : BitVec 64).toInt = -1 := by decide
          omega
        | ref r =>
          have heq : l = r := of_decide_eq_false h |> Decidable.not_not.mp
          rw [heq] at hleft
          have hboth : BitVec.intMin 64 = (-1 : BitVec 64) := hleft.symm.trans hright
          exact absurd hboth (by decide)

theorem mem_literals (ht : t ∈ comparisons cond)
    (hvalue : value ∈ valueLiterals t.left ++ valueLiterals t.right) : value ∈ literals cond :=
  List.mem_flatMap.mpr ⟨t, ht, hvalue⟩

theorem literal_mem_valueLiterals {l : Front.Lit} (h : .lit l ∈ v.operands) :
    l.value ∈ valueLiterals v := by
  cases v with
  | operand o =>
    have ho := List.mem_singleton.mp h
    rw [← ho]
    exact List.mem_cons_self
  | arith a => exact List.mem_append_right _ (List.mem_filterMap.mpr ⟨.lit l, h, rfl⟩)

theorem division_mem_valueLiterals {a : Front.Arith} (h : a.op = .div) :
    0 ∈ valueLiterals (.arith a) ∧ 1 ∈ valueLiterals (.arith a) := by
  unfold valueLiterals
  dsimp only
  rw [if_pos h]
  exact ⟨List.mem_cons_self, List.mem_cons_of_mem _ List.mem_cons_self⟩

/-- The constant of a literal is bound. -/
theorem lookup_constant (hstart : BindsStart s skip inputs env) (hop : op ∈ s.ops)
    (hg : g ∈ op.guard) (hcond : cond ∈ emittedConds py g.texts) (hvalue : value ∈ literals cond) :
    env.lookup (constantName value).text = some (.i64 (BitVec.ofNat 64 value)) := by
  obtain ⟨text, htext, rfl⟩ := List.mem_map.mp ((List.takeWhile_sublist _).subset hcond)
  have hmem := mem_constantValues.mpr ⟨op, hop, g, hg, text, htext, hvalue⟩
  apply hstart.2.2 (constantName value, .i64 (BitVec.ofNat 64 value))
  apply List.mem_append_right
  apply List.mem_append_left
  exact List.mem_map.mpr ⟨value, hmem, rfl⟩

theorem bindsValue_of_start (hstart : BindsStart s skip inputs env) (hop : op ∈ s.ops)
    (hg : g ∈ op.guard) (hcond : cond ∈ emittedConds py g.texts) (ht : t ∈ comparisons cond)
    (hv : v = t.left ∨ v = t.right) : BindsValue env inputs v := by
  have hliterals {value : Nat} (hvalue : value ∈ valueLiterals v) :
      env.lookup (constantName value).text = some (.i64 (BitVec.ofNat 64 value)) := by
    apply lookup_constant hstart hop hg hcond (mem_literals ht _)
    rcases hv with rfl | rfl
    · exact List.mem_append_left _ hvalue
    · exact List.mem_append_right _ hvalue
  constructor
  · intro o ho
    cases o with
    | lit l => exact hliterals (literal_mem_valueLiterals ho)
    | ref r =>
      apply hstart.2.1
      have hname : r.name ∈ v.references := by
        cases v with
        | operand o' =>
          rw [← List.mem_singleton.mp ho]
          exact List.mem_cons_self
        | arith a =>
          rcases List.mem_cons.mp ho with heq | ho
          · exact List.mem_append_left _ (by rw [← heq]; exact List.mem_cons_self)
          · exact List.mem_append_right _ (by
              rw [← List.mem_singleton.mp ho]; exact List.mem_cons_self)
      obtain ⟨-, text, htext, hsubset⟩ := of_emitted hcond ht
      apply mem_fields_of_guard hop hg htext (hsubset ?_)
      rcases hv with rfl | rfl
      · exact List.mem_append_left _ hname
      · exact List.mem_append_right _ hname
  · rintro a rfl hdiv
    have hzero := hliterals (division_mem_valueLiterals hdiv).1
    have hone := hliterals (division_mem_valueLiterals hdiv).2
    have hnames : constantName 0 = .plain "c" "0" ["i64"] ∧
        constantName 1 = .plain "c" "1" ["i64"] := by decide
    rw [hnames.1] at hzero
    rw [hnames.2] at hone
    exact ⟨hzero, hone⟩

/-- No emitted comparison divides a reference by another one. -/
def Divides (s : Stream py) : Prop :=
  ∀ op ∈ s.ops, ∀ guard ∈ op.guard, ∀ cond ∈ guard.emitted py, ∀ t ∈ comparisons cond,
    dividesReferences t.left = false ∧ dividesReferences t.right = false

theorem bindsOps_of_start (hstart : BindsStart s skip inputs env) (hdivides : Divides s) :
    BindsOps py env inputs s.ops := by
  intro op hop g hg
  refine ⟨⟨skip, hstart.1⟩, hstart.2.2 (.plain "c" "0" [], .i32 0) List.mem_cons_self, ?_⟩
  intro cond hcond
  constructor
  · intro t ht
    obtain ⟨⟨hleft, hright⟩, -⟩ := of_emitted hcond ht
    obtain ⟨hdl, hdr⟩ := hdivides op hop g hg cond hcond t ht
    exact ⟨⟨bindsValue_of_start hstart hop hg hcond ht (.inl rfl),
        bindsValue_of_start hstart hop hg hcond ht (.inr rfl)⟩,
      safe_of_not_divides (smallLiterals_of_spelled hleft) hdl,
      safe_of_not_divides (smallLiterals_of_spelled hright) hdr⟩
  · -- only an `until` negates, and only several comparisons as a whole
    intro hnegate hlength
    cases g with
    | «when» condition alternatives => cases hnegate
    | «until» condition =>
      have hparsed := List.mem_singleton.mp ((List.takeWhile_sublist _).subset hcond)
      have hand : negatesAnd py op = true := by
        unfold negatesAnd
        rw [show op.guard = some (.until condition) from hg]
        rw [hparsed] at hlength
        cases hcase : parsed py condition with
        | none =>
          rw [hcase] at hlength
          exact absurd hlength (by decide)
        | some cond' =>
          rw [hcase] at hlength
          cases cond' with
          | presence p => exact absurd hlength (Nat.not_succ_le_zero 1)
          | term u =>
            cases u with
            | comparison t => exact absurd hlength (Nat.not_succ_le_self 1)
            | numericPredicate p => exact absurd hlength (Nat.not_succ_le_zero 1)
          | and a => simp only [hcase]
      apply hstart.2.2 (.plain "true" "" ["i1"], .i1 true)
      apply List.mem_append_right
      apply List.mem_append_right
      rw [if_pos (List.any_eq_true.mpr ⟨op, hop, hand⟩)]
      exact List.mem_cons_self

/-! ### From the condition to the law -/

/-- **The function runs** where every name is defined once and no reference is divided by another
one. -/
theorem reaches_renderStd (honce : (renderStd s).DefinesOnce) (hdivides : Divides s)
    (skip : BitVec 32) (inputs : String → BitVec 64) :
    ReachesLines (renderStd s).result (entryEnv s skip inputs) (renderStd s).lines fun env' =>
      ∀ (n : Nat) op, s.ops[n]? = some op → BindsBit py env' inputs (1 + n) op := by
  apply ReachesLines.instrs (freshLines_entryEnv honce)
  · exact reaches_constantLines honce
  intro mid hext hstart hfresh
  apply reaches_streamLines hfresh (bindsOps_of_start hstart hdivides)
  show ∃ v, mid.lookup (if s.failed then Ssa.plain "c" "1" [] else .plain "c" "0" []).text = some v
  cases s.failed with
  | true => exact ⟨_, hstart.2.2 (.plain "c" "1" [], .i32 1) (List.mem_cons_of_mem _
      List.mem_cons_self)⟩
  | false => exact ⟨_, hstart.2.2 (.plain "c" "0" [], .i32 0) List.mem_cons_self⟩

theorem emitGuard_ne_none (h : g.Compiles py) : (emitGuard py step g).2 ≠ none := by
  cases g with
  | «until» condition =>
    exact fun hnone => h condition List.mem_cons_self (emitCondition_eq_none.mp hnone)
  | «when» condition alternatives =>
    unfold emitGuard
    dsimp only
    cases (if alternatives.isEmpty then emitCondition (parsed py condition) ⟨step, none⟩ false
        else emitAltCondition py (condition :: alternatives) step).2 with
    | none => exact fun hnone => nomatch hnone
    | some name => exact fun hnone => nomatch hnone

theorem compilesGuards_of_compilable (ops : Interp.JsonOps) (h : Compilable s) :
    CompilesGuards ops s := by
  have honce := (definesOnce_iff_names s).mpr ⟨h.parameters, h.names⟩
  have hreaches := reaches_renderStd honce h.divisions
  refine ⟨?_, honce, ?_, ?_, ?_⟩
  · intro a ha b hb heq
    exact fieldIdent_inj (isReferenceName_of_mem_fields ha) (isReferenceName_of_mem_fields hb) heq
  · apply (hreaches 0 fun _ => 0).2
    intro k hk
    rw [keys_entryEnv] at hk
    exact hk
  · intro skip inputs
    obtain ⟨env', hrun, -, -⟩ := (hreaches skip inputs).1
    exact ⟨env', hrun⟩
  · intro skip inputs env hrun scope hbinds n op hop g hg hcompiles
    obtain ⟨env', hrun', -, hbits⟩ := (hreaches skip inputs).1
    have henv : env = env' := Except.ok.inj (hrun.symm.trans hrun')
    cases hname : (emitGuard py (n + 1) g).2 with
    | none => exact absurd hname (emitGuard_ne_none hcompiles)
    | some name =>
      refine ⟨name, rfl, ?_⟩
      intro b hb
      have hmem := List.mem_of_getElem? hop
      have hbit := letsRun_eq (s.compiled op hmem g hg) hcompiles (fun text htext name hname =>
        hbinds name (mem_fields_of_guard hmem hg htext hname)) hb
      rw [henv, hbit]
      apply hbits n op hop g hg hcompiles
      rw [Nat.add_comm]
      exact hname

/-! ### From the law to the condition -/

/-- The instructions that stand in no region. -/
def topLevel (lines : List Line) : List Instr :=
  lines.flatMap fun
    | .instr i => [i]
    | .scfIf _ _ => []

theorem run_topLevel :
    ∀ {env : Env}, runLines env lines = .ok env' → mlir.run env (topLevel lines) = .ok env' := by
  induction lines with
  | nil => exact fun h => h
  | cons line lines ih =>
    intro env h
    cases line with
    | instr i =>
      obtain ⟨mid, hexec, h⟩ := runLines_cons_eq_ok.mp h
      exact Lib.Machine.run_cons_eq_ok.mpr ⟨mid, hexec, ih h⟩
    | scfIf condition body =>
      unfold runLines at h
      cases hlookup : env.lookup condition.text with
      | none =>
        rw [hlookup] at h
        cases h
      | some v =>
        rw [hlookup] at h
        cases v with
        | i1 b =>
          cases b with
          | true =>
            dsimp only at h
            cases hbody : mlir.run env body with
            | error e =>
              rw [hbody] at h
              cases h
            | ok mid =>
              rw [hbody] at h
              exact ih h
          | false => exact ih h
        | i32 n => cases h
        | i64 n => cases h
        | ptr text => cases h
        | unit => cases h

theorem topLevel_append (lines lines' : List Line) :
    topLevel (lines ++ lines') = topLevel lines ++ topLevel lines' :=
  List.flatMap_append

theorem topLevel_instrs (is : List Instr) : topLevel (is.map .instr) = is := by
  induction is with
  | nil => rfl
  | cons i is ih => exact congrArg (i :: ·) ih

theorem infix_emitTerms {idx : Index} {ts : List Front.Comparison} {t : Front.Comparison}
    (ht : t ∈ ts) : ∀ n, ∃ k pred name, emitTerm idx k pred name t <:+: (emitTerms idx n ts).1 := by
  induction ts with
  | nil => exact absurd ht List.not_mem_nil
  | cons t' ts ih =>
    intro n
    rcases List.mem_cons.mp ht with rfl | ht
    · exact ⟨n, _, _, (List.prefix_append _ _).isInfix⟩
    · obtain ⟨k, pred, name, hinfix⟩ := ih ht (n + 1)
      exact ⟨k, pred, name, hinfix.trans (List.suffix_append _ _).isInfix⟩

theorem infix_emitCondition {cond : Option Front.Condition} {idx : Index} {negate : Bool}
    {t : Front.Comparison} (ht : t ∈ comparisons cond) :
    ∃ k pred name, emitTerm idx k pred name t <:+: (emitCondition cond idx negate).1 := by
  match h : comparisons cond with
  | [] =>
    rw [h] at ht
    exact absurd ht List.not_mem_nil
  | [t'] =>
    rw [h] at ht
    rw [emitCondition_of_one h, List.mem_singleton.mp ht]
    exact ⟨0, _, _, List.infix_refl _⟩
  | t' :: t'' :: rest =>
    rw [h] at ht
    obtain ⟨k, pred, name, hinfix⟩ := @infix_emitTerms idx _ t ht 0
    refine ⟨k, pred, name, hinfix.trans ?_⟩
    rw [emitCondition_of_two h]
    cases negate with
    | true => exact ((List.prefix_append _ _).trans (List.prefix_append _ _)).isInfix
    | false => exact (List.prefix_append _ _).isInfix

theorem infix_emitAlternatives {step : Nat} {texts : List String} {cond : Option Front.Condition} :
    ∀ {n : Nat}, cond ∈ emittedConds py texts →
      ∃ idx, (emitCondition cond idx false).1 <:+: (emitAlternatives py step n texts).1 := by
  induction texts with
  | nil => exact fun hcond => absurd hcond List.not_mem_nil
  | cons text texts ih =>
    intro n hcond
    by_cases hnone : comparisons (parsed py text) = []
    · unfold emittedConds at hcond
      rw [List.map_cons, List.takeWhile_cons, hnone] at hcond
      exact absurd hcond List.not_mem_nil
    rw [emittedConds_cons hnone] at hcond
    unfold emitAlternatives
    dsimp only
    cases hname : (emitCondition (parsed py text) ⟨step, some n⟩ false).2 with
    | none => exact absurd (emitCondition_eq_none.mp hname) hnone
    | some name =>
      dsimp only
      rcases List.mem_cons.mp hcond with rfl | hcond
      · exact ⟨_, (List.prefix_append _ _).isInfix⟩
      · obtain ⟨idx, hinfix⟩ := @ih (n + 1) hcond
        exact ⟨idx, hinfix.trans (List.suffix_append _ _).isInfix⟩

theorem infix_emitGuard {step : Nat} {g : StepGuard} {cond : Option Front.Condition}
    (hcond : cond ∈ emittedConds py g.texts) :
    ∃ idx negate, (emitCondition cond idx negate).1 <:+: (emitGuard py step g).1 := by
  cases g with
  | «until» condition =>
    have hparsed := List.mem_singleton.mp ((List.takeWhile_sublist _).subset hcond)
    rw [hparsed]
    exact ⟨⟨step, none⟩, true, List.infix_refl _⟩
  | «when» condition alternatives =>
    have hemitted : ∃ idx negate, (emitCondition cond idx negate).1 <:+:
        (if alternatives.isEmpty then emitCondition (parsed py condition) ⟨step, none⟩ false
          else emitAltCondition py (condition :: alternatives) step).1 := by
      cases alternatives with
      | nil =>
        have hparsed := List.mem_singleton.mp ((List.takeWhile_sublist _).subset hcond)
        rw [hparsed]
        exact ⟨⟨step, none⟩, false, List.infix_refl _⟩
      | cons text rest =>
        obtain ⟨idx, hinfix⟩ := @infix_emitAlternatives py step _ cond 0 hcond
        refine ⟨idx, false, hinfix.trans ?_⟩
        show _ <:+: (emitAltCondition py (condition :: text :: rest) step).1
        unfold emitAltCondition
        dsimp only
        cases (emitAlternatives py step 0 (condition :: text :: rest)).2 with
        | none => exact List.infix_refl _
        | some names =>
          cases names with
          | nil => exact List.infix_refl _
          | cons first names => exact (List.prefix_append _ _).isInfix
    obtain ⟨idx, negate, hinfix⟩ := hemitted
    refine ⟨idx, negate, hinfix.trans ?_⟩
    unfold emitGuard
    dsimp only
    cases (if alternatives.isEmpty then emitCondition (parsed py condition) ⟨step, none⟩ false
        else emitAltCondition py (condition :: alternatives) step).2 with
    | some name => exact List.infix_refl _
    | none => exact (List.prefix_append _ _).isInfix

theorem infix_stepLines (hg : g ∈ op.guard) :
    (emitGuard py step g).1 <:+: topLevel (stepLines py step op) := by
  unfold stepLines
  dsimp only
  rw [show op.guard = some g from hg, Option.map_some]
  cases hemitted : emitGuard py step g with
  | mk emitted condition =>
    cases condition with
    | some condition =>
      dsimp only
      rw [topLevel_append, topLevel_instrs]
      exact ((List.suffix_append _ _).isInfix).trans (List.prefix_append _ _).isInfix
    | none =>
      dsimp only
      rw [topLevel_instrs]
      exact ((List.suffix_append _ _).isInfix).trans (List.prefix_append _ _).isInfix

theorem infix_streamLines {ops : List StepOp} {op : StepOp} (hop : op ∈ ops) {g : StepGuard}
    (hg : g ∈ op.guard) :
    ∀ step, ∃ k, (emitGuard py k g).1 <:+: topLevel (streamLines py step ops) := by
  induction ops with
  | nil => exact absurd hop List.not_mem_nil
  | cons op' ops ih =>
    intro step
    unfold streamLines
    rw [topLevel_append]
    rcases List.mem_cons.mp hop with rfl | hop
    · exact ⟨step, (infix_stepLines hg).trans (List.prefix_append _ _).isInfix⟩
    · obtain ⟨k, hinfix⟩ := ih hop (step + 1)
      exact ⟨k, hinfix.trans (List.suffix_append _ _).isInfix⟩

/-- The lines of either side of an emitted comparison are in the function. -/
theorem infix_emitOperand (hop : op ∈ s.ops) (hg : g ∈ op.guard)
    (hcond : cond ∈ emittedConds py g.texts) (ht : t ∈ comparisons cond)
    (hv : v = t.left ∨ v = t.right) :
    ∃ idx slot, (emitOperand idx slot v).1 <:+: topLevel (streamLines py 1 s.ops) := by
  obtain ⟨step, hstream⟩ := @infix_streamLines py s.ops op hop g hg 1
  obtain ⟨idx, negate, hguard⟩ := @infix_emitGuard py step g cond hcond
  obtain ⟨k, pred, name, hterm⟩ := @infix_emitCondition cond idx negate t ht
  have hall := (hterm.trans hguard).trans hstream
  rcases hv with rfl | rfl
  · refine ⟨idx, toString k ++ "l", List.IsInfix.trans ?_ hall⟩
    exact ((List.prefix_append _ _).trans (List.prefix_append _ _)).isInfix
  · refine ⟨idx, toString k ++ "r", List.IsInfix.trans ?_ hall⟩
    exact ((List.suffix_append _ _).isInfix).trans (List.prefix_append _ _).isInfix

/-- The smallest number divided by -1 is undefined. -/
theorem not_run_emitDivision {left right : Ssa} {idx : Index} {slot : String}
    (hfresh : mlir.Fresh env (emitDivision left right idx slot).1)
    (hleft : env.lookup left.text = some (.i64 (BitVec.intMin 64)))
    (hright : env.lookup right.text = some (.i64 (-1)))
    (hzero : env.lookup (Ssa.plain "c" "0" ["i64"]).text = some (.i64 0))
    (hone : env.lookup (Ssa.plain "c" "1" ["i64"]).text = some (.i64 1)) :
    mlir.run env (emitDivision left right idx slot).1 ≠ .ok env' := by
  let isZero : Instr := ⟨some (idx.name "z" [slot]), .cmpi .eq, [right, .plain "c" "0" ["i64"]]⟩
  let divisor : Instr := ⟨some (idx.name "sr" [slot]), .select,
    [idx.name "z" [slot], .plain "c" "1" ["i64"], right]⟩
  let divide : Instr := ⟨some (idx.name "v" [slot]), .divsi, [left, idx.name "sr" [slot]]⟩
  intro hrun
  have hfresh' : mlir.Fresh env ([isZero] ++ ([divisor] ++ [divide])) := hfresh
  have hrun' : mlir.run env ([isZero] ++ ([divisor] ++ [divide])) = .ok env' := hrun
  obtain ⟨mid, hfirst, hrest⟩ := Lib.Machine.run_append_eq_ok.mp hrun'
  obtain ⟨mid', hsecond, hthird⟩ := Lib.Machine.run_append_eq_ok.mp hrest
  -- the divisor is not 0
  obtain ⟨env₁, hrun₁, hext₁, hisZero⟩ := reaches_two hfresh'.left hright hzero rfl
  rw [Except.ok.inj (hfirst.symm.trans hrun₁)] at hsecond
  have hfresh₂ := hfresh'.right hrun₁
  -- and is not replaced
  have hargs₂ : lookupAll env₁ [(idx.name "z" [slot]).text, (Ssa.plain "c" "1" ["i64"]).text,
      right.text] = some [.i1 false, .i64 1, .i64 (-1)] :=
    lookupAll_cons hisZero (lookupAll_cons (hext₁ _ _ hone)
      (lookupAll_cons (hext₁ _ _ hright) rfl))
  obtain ⟨env₂, hrun₂, hext₂, hsafe⟩ := Reaches.named hfresh₂.left rfl hargs₂ rfl
  rw [Except.ok.inj (hsecond.symm.trans hrun₂)] at hthird
  obtain ⟨last, hexec, -⟩ := Lib.Machine.run_cons_eq_ok.mp hthird
  obtain ⟨vals, v, hargs₃, heval, -⟩ := Lib.Machine.exec_eq_ok.mp hexec
  have hvals : lookupAll env₂ [left.text, (idx.name "sr" [slot]).text] =
      some [.i64 (BitVec.intMin 64), .i64 (-1)] :=
    lookupAll_cons (hext₂ _ _ (hext₁ _ _ hleft)) (lookupAll_cons hsafe rfl)
  rw [← Option.some.inj (hvals.symm.trans hargs₃)] at heval
  cases heval

/-- A division of references has names on both sides. -/
theorem dividesReferences_eq_true (h : dividesReferences v = true) :
    ∃ l r, v = .arith ⟨.ref l, .div, .ref r⟩ ∧ l ≠ r := by
  cases v with
  | operand o => cases h
  | arith a =>
    obtain ⟨left, op, right⟩ := a
    cases left with
    | lit l => cases op <;> cases h
    | ref l =>
      cases right with
      | lit r => cases op <;> cases h
      | ref r =>
        cases op with
        | add => cases h
        | sub => cases h
        | mul => cases h
        | div => exact ⟨l, r, rfl, of_decide_eq_true h⟩

theorem results_topLevel (lines : List Line) :
    (mlir.results (topLevel lines)).Sublist (definitions lines) := by
  induction lines with
  | nil => exact List.Sublist.refl _
  | cons line lines ih =>
    cases line with
    | instr i =>
      show (mlir.results (i :: topLevel lines)).Sublist (mlir.results [i] ++ definitions lines)
      rw [Lib.Machine.results_cons]
      exact (List.Sublist.refl _).append ih
    | scfIf condition body => exact ih.trans (List.sublist_append_right _ _)

theorem FreshLines.topLevel (h : FreshLines env lines) : mlir.Fresh env (topLevel lines) :=
  h.sublist ((List.Sublist.refl _).append (results_topLevel lines))

/-- No parameter divides the smallest number by -1 only if no reference is divided by another
one. -/
theorem divides_of_runs (honce : (renderStd s).DefinesOnce)
    (hruns : ∀ skip inputs, ∃ env, (renderStd s).run (s.args skip inputs) = .ok env) :
    Divides s := by
  intro op hop g hg cond hcond t ht
  suffices hside : ∀ v, v = t.left ∨ v = t.right → dividesReferences v = false from
    ⟨hside _ (.inl rfl), hside _ (.inr rfl)⟩
  intro v hv
  rw [← Bool.not_eq_true]
  intro hdivides
  obtain ⟨l, r, hvalue, hne⟩ := dividesReferences_eq_true hdivides
  let inputs : String → BitVec 64 := fun name => if name = l.name then BitVec.intMin 64 else -1
  have hl : inputs l.name = BitVec.intMin 64 := if_pos rfl
  have hr : inputs r.name = -1 := if_neg fun heq => hne (congrArg Front.Ref.mk heq.symm)
  obtain ⟨env, hrun⟩ := hruns 0 inputs
  have hfresh : FreshLines (entryEnv s 0 inputs) (renderStd s).lines := freshLines_entryEnv honce
  -- the constants are bound, and the run goes on into the steps
  obtain ⟨mid, hconstants, hsteps⟩ := (runLines_instrs _).mp hrun
  obtain ⟨mid', hrun', hext, hstart⟩ := reaches_constantLines honce hfresh.instrs
  rw [Except.ok.inj (hrun'.symm.trans hconstants)] at hstart
  have htop := run_topLevel hsteps
  have hfreshTop := (hfresh.rest hconstants).topLevel
  -- the division is one of the lines
  obtain ⟨idx, slot, before, after, hlines⟩ := infix_emitOperand hop hg hcond ht hv
  rw [← hlines] at htop hfreshTop
  obtain ⟨last, hfront, -⟩ := Lib.Machine.run_append_eq_ok.mp htop
  obtain ⟨start, hbefore, hdivision⟩ := Lib.Machine.run_append_eq_ok.mp hfront
  have hextends := Lib.Machine.extends_run hfreshTop.left.left hbefore
  have hbinds := bindsValue_of_start hstart hop hg hcond ht hv
  rw [hvalue] at hdivision hbinds hfreshTop
  obtain ⟨hzero, hone⟩ := hbinds.2 _ rfl rfl
  have hleft := hbinds.1 (.ref l) List.mem_cons_self
  have hright := hbinds.1 (.ref r) (List.mem_cons_of_mem _ List.mem_cons_self)
  apply not_run_emitDivision (hfreshTop.left.right hbefore) _ _ _ _ hdivision
  · exact hextends _ _ (hl ▸ hleft)
  · exact hextends _ _ (hr ▸ hright)
  · exact hextends _ _ hzero
  · exact hextends _ _ hone

/-! ### The law -/

/-- **Compiled guards**: mode B's function is well formed, runs with all parameters and computes
mode A's truth values iff no reference is spelt like one of its own names and no reference is
divided by another one. -/
theorem compilesGuards_iff (ops : Interp.JsonOps) (s : Stream py) :
    CompilesGuards ops s ↔ Compilable s := by
  constructor
  · intro h
    obtain ⟨hparameters, hnames⟩ := (definesOnce_iff_names s).mp h.once
    exact ⟨hparameters, hnames, divides_of_runs h.once h.runs⟩
  · exact compilesGuards_of_compilable ops

/-- `when left / right > 0` on one step. -/
def dividing : Stream Python.ascii where
  ops := [⟨"share", [], some (.when "left / right > 0" [])⟩]
  behind := []
  failed := false
  compiled := by
    intro op hop guard hguard text htext
    rw [List.mem_singleton.mp hop] at hguard
    rw [← Option.some.inj hguard] at htext
    rw [List.mem_singleton.mp htext]
    decide +kernel

/-- The smallest number divided by -1 is emitted as it stands. -/
theorem not_compilesGuards_dividing : ¬∃ ops, CompilesGuards ops dividing := by
  rintro ⟨ops, h⟩
  let inputs : String → BitVec 64 := fun name => if name = "left" then BitVec.intMin 64 else -1
  obtain ⟨env, hrun⟩ := h.runs 0 inputs
  have hstops : (renderStd dividing).run (dividing.args 0 inputs) = .error .undefined := by
    decide +kernel
  rw [hstops] at hrun
  cases hrun

end Lnpl.Backend
