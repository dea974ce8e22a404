import Lnpl.Backend.Equiv.Conditions
import Lnpl.Backend.Equiv.Parameters

/-!
# Runs of the rendered function

Where no name is defined twice and no division overflows, the function is run to its end: the
constants first, then the entries one after the other, a region leaving nothing behind.
-/

namespace Lnpl.Backend

open Front (Python)
open Lib (Extends lookupAll lookupAll_cons)
open Lib.Machine (Reaches)

variable {py : Python} {env env' : Env} {inputs : String → BitVec 64} {result : Ssa}

/-! ### Lines -/

theorem runLines_cons (env : Env) (i : Instr) (rest : List Line) :
    runLines env (.instr i :: rest) = mlir.exec env i >>= fun mid => runLines mid rest := by
  conv => lhs; unfold runLines
  cases mlir.exec env i with
  | error e => rfl
  | ok mid => rfl

theorem runLines_cons_eq_ok {i : Instr} {rest : List Line} :
    runLines env (.instr i :: rest) = .ok env' ↔
      ∃ mid, mlir.exec env i = .ok mid ∧ runLines mid rest = .ok env' := by
  rw [runLines_cons, Lib.bind_eq_ok]

theorem runLines_instrs {rest : List Line} (is : List Instr) :
    runLines env (is.map .instr ++ rest) = .ok env' ↔
      ∃ mid, mlir.run env is = .ok mid ∧ runLines mid rest = .ok env' := by
  rw [← Lib.bind_eq_ok]
  congr! 1
  induction is generalizing env with
  | nil => rfl
  | cons i is ih =>
    rw [List.map_cons, List.cons_append, runLines_cons, Lib.Machine.run_cons, bind_assoc]
    simp only [ih]

theorem definedLines_instrs (is : List Instr) (rest : List Line) :
    ∀ {known : List String}, mlir.Defined known is →
      DefinedLines result (known ++ mlir.results is) rest →
      DefinedLines result known (is.map .instr ++ rest) := by
  induction is with
  | nil =>
    intro known _ hrest
    have hknown : known ++ mlir.results [] = known := List.append_nil known
    rw [hknown] at hrest
    exact hrest
  | cons i is ih =>
    intro known hdefined hrest
    rw [Lib.Machine.results_cons, ← List.append_assoc] at hrest
    exact ⟨⟨hdefined.1, trivial⟩, ih hdefined.2 hrest⟩

theorem definitions_append (lines lines' : List Line) :
    definitions (lines ++ lines') = definitions lines ++ definitions lines' :=
  List.flatMap_append

theorem definitions_instrs (is : List Instr) :
    definitions (is.map .instr) = mlir.results is := by
  rw [definitions_eq_dests, dests_lines, results_eq_dests]

/-- No line defines a name that is bound or defined by another one. -/
def FreshLines (env : Env) (lines : List Line) : Prop :=
  (env.map Prod.fst ++ definitions lines).Nodup

variable {is : List Instr} {P Q : Env → Prop}

theorem FreshLines.instrs {rest : List Line} (h : FreshLines env (is.map .instr ++ rest)) :
    mlir.Fresh env is := by
  unfold FreshLines at h
  rw [definitions_append, definitions_instrs, ← List.append_assoc] at h
  exact (List.nodup_append.mp h).1

theorem FreshLines.rest {rest : List Line} (h : FreshLines env (is.map .instr ++ rest))
    (hrun : mlir.run env is = .ok env') :
    FreshLines env' rest := by
  unfold FreshLines at h ⊢
  rw [definitions_append, definitions_instrs, ← List.append_assoc] at h
  exact ((Lib.Machine.keys_run hrun).append_right _).nodup_iff.mpr h

/-- The lines are run to the end, keep what is bound and end in `Q`, and every name in them is
defined first. -/
def ReachesLines (result : Ssa) (env : Env) (lines : List Line) (Q : Env → Prop) : Prop :=
  (∃ env', runLines env lines = .ok env' ∧ Extends env env' ∧ Q env') ∧
    ∀ known : List String, (∀ k ∈ env.map Prod.fst, k ∈ known) → DefinedLines result known lines

theorem ReachesLines.mono {lines : List Line} (h : ReachesLines result env lines P)
    (hPQ : ∀ env', Extends env env' → P env' → Q env') :
    ReachesLines result env lines Q := by
  obtain ⟨⟨env', hrun, hext, hP⟩, hdefined⟩ := h
  exact ⟨⟨env', hrun, hext, hPQ env' hext hP⟩, hdefined⟩

theorem ReachesLines.instrs {rest : List Line} (hfresh : FreshLines env (is.map .instr ++ rest))
    (h : mlir.Fresh env is → mlir.Reaches env is P)
    (hrest : ∀ mid, Extends env mid → P mid → FreshLines mid rest →
      ReachesLines result mid rest Q) :
    ReachesLines result env (is.map .instr ++ rest) Q := by
  obtain ⟨mid, hrun, hext, hP⟩ := h hfresh.instrs
  obtain ⟨⟨env', hlines, hext', hQ⟩, hdefined⟩ := hrest mid hext hP (hfresh.rest hrun)
  constructor
  · exact ⟨env', (runLines_instrs is).mpr ⟨mid, hrun, hlines⟩, hext.trans hext', hQ⟩
  · intro known hknown
    apply definedLines_instrs is rest (Lib.Machine.defined_of_run hrun hknown)
    apply hdefined
    intro k hk
    rcases List.mem_append.mp ((Lib.Machine.keys_run hrun).subset hk) with hk | hk
    · exact List.mem_append_left _ (hknown k hk)
    · exact List.mem_append_right _ hk

theorem ReachesLines.scfIf {condition : Ssa} {body : List Instr} {rest : List Line} {b : Bool}
    (hfresh : FreshLines env (.scfIf condition body :: rest))
    (hcondition : env.lookup condition.text = some (.i1 b))
    (hbody : mlir.Fresh env body → mlir.Reaches env body P)
    (hrest : FreshLines env rest → ReachesLines result env rest Q) :
    ReachesLines result env (.scfIf condition body :: rest) Q := by
  have happend : (env.map Prod.fst ++ (mlir.results body ++ definitions rest)).Nodup := hfresh
  have hkeep : FreshLines env rest :=
    happend.sublist ((List.Sublist.refl _).append (List.sublist_append_right _ _))
  obtain ⟨mid, hrun, -, -⟩ := hbody
    (happend.sublist ((List.Sublist.refl _).append (List.sublist_append_left _ _)))
  obtain ⟨⟨env', hlines, hext, hQ⟩, hdefined⟩ := hrest hkeep
  constructor
  · refine ⟨env', ?_, hext, hQ⟩
    unfold runLines
    rw [hcondition]
    cases b with
    | true =>
      dsimp only
      rw [hrun]
      exact hlines
    | false => exact hlines
  · intro known hknown
    exact ⟨hknown _ (Lib.mem_keys_of_lookup hcondition), Lib.Machine.defined_of_run hrun hknown,
      hdefined known hknown⟩

theorem ReachesLines.nil (hQ : Q env) (hresult : ∃ v, env.lookup result.text = some v) :
    ReachesLines result env [] Q := by
  refine ⟨⟨env, rfl, .refl env, hQ⟩, ?_⟩
  intro known hknown
  obtain ⟨v, hv⟩ := hresult
  exact hknown _ (Lib.mem_keys_of_lookup hv)

/-! ### Entries -/

variable {step : Nat} {ops : List StepOp}

/-- The calls of an entry. -/
theorem reaches_stepCalls {effects : List String} {text : String} {n : BitVec 32}
    (hfresh : mlir.Fresh env (stepCalls step effects))
    (hp : env.lookup (Ssa.plain "p" (toString step) []).text = some (.ptr text))
    (hi : env.lookup (Ssa.plain "i" (toString step) []).text = some (.i32 n)) :
    mlir.Reaches env (stepCalls step effects) fun _ => True := by
  have heffects : ∀ (effects : List String) (k : Nat) {env : Env},
      env.lookup (Ssa.plain "p" (toString step) []).text = some (.ptr text) →
      mlir.Fresh env ((effects.zipIdx k).flatMap fun e =>
        [⟨some (.plain "k" (toString step) [toString e.2]), .addressof e.1, []⟩,
          ⟨none, .callEffect, [.plain "p" (toString step) [],
            .plain "k" (toString step) [toString e.2]]⟩]) →
      mlir.Reaches env ((effects.zipIdx k).flatMap fun e =>
        [⟨some (.plain "k" (toString step) [toString e.2]), .addressof e.1, []⟩,
          ⟨none, .callEffect, [.plain "p" (toString step) [],
            .plain "k" (toString step) [toString e.2]]⟩]) fun _ => True := by
    intro effects
    induction effects with
    | nil => exact fun _ _ _ _ => Reaches.nil trivial
    | cons kind effects ih =>
      intro k env hp hfresh
      rw [List.zipIdx_cons, List.flatMap_cons] at hfresh ⊢
      apply Reaches.append hfresh
      · intro htwo
        show mlir.Reaches env ([_] ++ [_]) _
        apply Reaches.append htwo
        · exact fun hone => Reaches.named hone rfl rfl rfl
        intro mid hext hk _
        have hargs : lookupAll mid [(Ssa.plain "p" (toString step) []).text,
            (Ssa.plain "k" (toString step) [toString k]).text] = some [.ptr text, .ptr kind] :=
          lookupAll_cons (hext _ _ hp) (lookupAll_cons hk rfl)
        exact Reaches.mono (Reaches.unnamed rfl hargs rfl) fun _ _ _ => trivial
      intro mid hext _ hrest
      exact ih (k + 1) (hext _ _ hp) hrest
  show mlir.Reaches env ([_] ++ _) _
  apply Reaches.append hfresh
  · exact fun hone => reaches_two hone hp hi rfl
  intro mid hext _ hrest
  exact heffects effects 0 (hext _ _ hp) hrest

/-- What the guards of the entries are made of is bound. -/
def BindsOps (py : Python) (env : Env) (inputs : String → BitVec 64) (ops : List StepOp) : Prop :=
  ∀ op ∈ ops, ∀ g ∈ op.guard, BindsGuard py env inputs g

theorem BindsOps.mono (h : BindsOps py env inputs ops) (hext : Extends env env') :
    BindsOps py env' inputs ops :=
  fun op hop g hg => (h op hop g hg).mono hext

/-- The truth value of the guard of an entry is bound. -/
def BindsBit (py : Python) (env : Env) (inputs : String → BitVec 64) (step : Nat) (op : StepOp) :
    Prop :=
  ∀ g ∈ op.guard, g.Compiles py → ∀ name, (emitGuard py step g).2 = some name →
    env.lookup name.text = some (.i1 (guardBit py inputs g))

theorem reaches_stepLines {op : StepOp} {rest : List Line}
    (hfresh : FreshLines env (stepLines py step op ++ rest))
    (hbinds : ∀ g ∈ op.guard, BindsGuard py env inputs g)
    (hrest : ∀ mid, Extends env mid → BindsBit py mid inputs step op → FreshLines mid rest →
      ReachesLines result mid rest Q) :
    ReachesLines result env (stepLines py step op ++ rest) Q := by
  obtain ⟨name, effects, guard⟩ := op
  -- the text of the step and its number stand before the guard
  have hhead {is : List Instr} {P : Env → Prop}
      (hfresh : mlir.Fresh env ([⟨some (.plain "p" (toString step) []), .addressof name, []⟩,
        ⟨some (.plain "i" (toString step) []), .constant (.i32 (BitVec.ofNat 32 step)), []⟩] ++ is))
      (hthen : ∀ mid, Extends env mid →
        mid.lookup (Ssa.plain "p" (toString step) []).text = some (.ptr name) →
        mid.lookup (Ssa.plain "i" (toString step) []).text =
          some (.i32 (BitVec.ofNat 32 step)) → mlir.Fresh mid is → mlir.Reaches mid is P) :
      mlir.Reaches env ([⟨some (.plain "p" (toString step) []), .addressof name, []⟩,
        ⟨some (.plain "i" (toString step) []), .constant (.i32 (BitVec.ofNat 32 step)), []⟩] ++ is)
        P := by
    have hthree : mlir.Fresh env ([⟨some (.plain "p" (toString step) []), .addressof name, []⟩] ++
        ([⟨some (.plain "i" (toString step) []), .constant (.i32 (BitVec.ofNat 32 step)), []⟩] ++
          is)) := hfresh
    apply Reaches.append hthree
    · exact fun hone => Reaches.named hone rfl rfl rfl
    intro mid hext hp htwo
    apply Reaches.append htwo
    · exact fun hone => Reaches.named hone rfl rfl rfl
    intro mid' hext' hi his
    exact hthen mid' (hext.trans hext') (hext' _ _ hp) hi his
  unfold stepLines at hfresh ⊢
  dsimp only at hfresh hbinds ⊢
  cases guard with
  | none =>
    rw [Option.map_none] at hfresh ⊢
    dsimp only at hfresh ⊢
    apply ReachesLines.instrs hfresh
    · intro hlines
      exact hhead hlines fun mid _ hp hi hcalls => reaches_stepCalls hcalls hp hi
    · intro mid hext _ hmid
      exact hrest mid hext (fun g hg => nomatch hg) hmid
  | some g =>
    have hguard := hbinds g rfl
    rw [Option.map_some] at hfresh ⊢
    cases hemitted : emitGuard py step g with
    | mk emitted condition =>
      -- the head and the lines of the guard bind the text, the number and the truth value
      have hlines {is : List Instr} (his : is = emitted)
          (hfresh : mlir.Fresh env ([⟨some (.plain "p" (toString step) []), .addressof name, []⟩,
            ⟨some (.plain "i" (toString step) []), .constant (.i32 (BitVec.ofNat 32 step)), []⟩] ++
              is)) :
          mlir.Reaches env ([⟨some (.plain "p" (toString step) []), .addressof name, []⟩,
            ⟨some (.plain "i" (toString step) []), .constant (.i32 (BitVec.ofNat 32 step)), []⟩] ++
              is) fun env' =>
            (env'.lookup (Ssa.plain "p" (toString step) []).text = some (.ptr name) ∧
              env'.lookup (Ssa.plain "i" (toString step) []).text =
                some (.i32 (BitVec.ofNat 32 step))) ∧
            ∀ name, condition = some name → (∃ b, env'.lookup name.text = some (.i1 b)) ∧
              (g.Compiles py → env'.lookup name.text = some (.i1 (guardBit py inputs g))) := by
        apply hhead hfresh
        intro mid hext hp hi hguardFresh
        have hreaches := @reaches_emitGuard mid inputs py step g
        rw [hemitted] at hreaches
        rw [his] at hguardFresh ⊢
        apply (hreaches hguardFresh (hguard.mono hext)).mono
        intro env' hext' hbits
        exact ⟨⟨hext' _ _ hp, hext' _ _ hi⟩, hbits⟩
      rw [hemitted] at hfresh
      cases condition with
      | some condition =>
        dsimp only at hfresh ⊢
        rw [List.append_assoc] at hfresh ⊢
        apply ReachesLines.instrs hfresh
        · exact hlines rfl
        rintro mid hext ⟨⟨hp, hi⟩, hbits⟩ hmid
        obtain ⟨⟨b, hb⟩, hbit⟩ := hbits condition rfl
        apply ReachesLines.scfIf hmid hb
        · exact fun hcalls => reaches_stepCalls hcalls hp hi
        intro hmid'
        apply hrest mid hext _ hmid'
        intro g' hg' hcompiles name' hname'
        rw [← Option.some.inj hg'] at hcompiles hname' ⊢
        rw [hemitted] at hname'
        rw [← Option.some.inj hname']
        exact hbit hcompiles
      | none =>
        dsimp only at hfresh ⊢
        apply ReachesLines.instrs hfresh
        · intro hall
          apply Reaches.append hall
          · exact hlines rfl
          rintro mid hext ⟨⟨hp, hi⟩, -⟩ hcalls
          exact reaches_stepCalls hcalls hp hi
        intro mid hext _ hmid
        apply hrest mid hext _ hmid
        intro g' hg' hcompiles name' hname'
        rw [← Option.some.inj hg', hemitted] at hname'
        cases hname'

/-- **Entries**: the entries are run to the end, and bind the truth values of their guards. -/
theorem reaches_streamLines :
    ∀ {env : Env} {step : Nat}, FreshLines env (streamLines py step ops) →
      BindsOps py env inputs ops → (∃ v, env.lookup result.text = some v) →
      ReachesLines result env (streamLines py step ops) fun env' =>
        ∀ (n : Nat) op, ops[n]? = some op → BindsBit py env' inputs (step + n) op := by
  induction ops with
  | nil =>
    intro env step _ _ hresult
    exact ReachesLines.nil (fun n op hop => nomatch hop) hresult
  | cons op ops ih =>
    intro env step hfresh hbinds hresult
    apply reaches_stepLines hfresh (hbinds op List.mem_cons_self)
    intro mid hext hbit hmid
    have htail : BindsOps py mid inputs ops := by
      intro op' hop'
      exact hbinds.mono hext op' (List.mem_cons_of_mem op hop')
    obtain ⟨v, hv⟩ := hresult
    apply (ih hmid htail ⟨v, hext _ _ hv⟩).mono
    intro env' hext' hbits n op' hop'
    cases n with
    | zero =>
      rw [← Option.some.inj hop']
      intro g hg hcompiles name hname
      exact hext' _ _ (hbit g hg hcompiles name hname)
    | succ n =>
      rw [show step + (n + 1) = step + 1 + n by omega]
      exact hbits n op' hop'

end Lnpl.Backend
