import Lnpl.Backend.Equiv.Definitions

/-!
# Parameters of the rendered function

The parameters are references, so they clash with a name of the function only where they are spelt
like one without underscores.
-/

namespace Lnpl.Backend

open Front (Python isReferenceName)
open Lib.Py (sortTexts)

variable {py : Python}

/-! ### References of a guard -/

variable {text name : String} {ops : List StepOp}

/-- What a parsed text is. -/
theorem spelled_of_parsed {cond : Front.Condition} (h : parsed py text = some cond) :
    cond.Spelled py := by
  unfold parsed at h
  cases hparse : Front.parseCondition py (some text) with
  | error e =>
    rw [hparse] at h
    cases h
  | ok cond' =>
    rw [hparse] at h
    rw [show cond' = some cond from h] at hparse
    exact Front.spelled_of_parseCondition hparse

theorem isReferenceName_of_mem_operand {o : Front.Operand} (h : o.Spelled py)
    (hname : name ∈ o.references) : isReferenceName py name = true := by
  cases o with
  | lit l => exact absurd hname List.not_mem_nil
  | ref r =>
    rw [List.mem_singleton.mp hname]
    have hparse : Front.parseOperand py r.name none = .ok (.ref r) := h.parse none
    rcases (Front.parseOperand_eq_ok py).mp hparse with
      ⟨v, -, -, -, heq⟩ | ⟨d, -, -, heq⟩ | ⟨-, -, href, -⟩
    · cases heq
    · cases heq
    · exact href

theorem isReferenceName_of_mem_value {v : Front.Value} (h : v.Spelled py)
    (hname : name ∈ v.references) : isReferenceName py name = true := by
  cases v with
  | operand o => exact isReferenceName_of_mem_operand (h o List.mem_cons_self) hname
  | arith a =>
    rcases List.mem_append.mp hname with hname | hname
    · exact isReferenceName_of_mem_operand (h a.left List.mem_cons_self) hname
    · exact isReferenceName_of_mem_operand
        (h a.right (List.mem_cons_of_mem _ List.mem_cons_self)) hname

theorem isReferenceName_of_mem_term {t : Front.Term} (h : t.Spelled py)
    (hname : name ∈ t.references) : isReferenceName py name = true := by
  cases t with
  | comparison t =>
    rcases List.mem_append.mp hname with hname | hname
    · exact isReferenceName_of_mem_value h.1 hname
    · exact isReferenceName_of_mem_value h.2 hname
  | numericPredicate p =>
    rw [List.mem_singleton.mp hname]
    exact h.1

theorem isReferenceName_of_mem_references
    (hname : name ∈ Front.Condition.references (parsed py text)) :
    isReferenceName py name = true := by
  cases hparsed : parsed py text with
  | none =>
    rw [hparsed] at hname
    exact absurd hname List.not_mem_nil
  | some cond =>
    have hspelled := spelled_of_parsed hparsed
    rw [hparsed] at hname
    cases cond with
    | presence p =>
      rw [List.mem_singleton.mp hname]
      exact hspelled.1
    | term t => exact isReferenceName_of_mem_term hspelled hname
    | and a =>
      obtain ⟨t, ht, hname⟩ := List.mem_flatMap.mp hname
      exact isReferenceName_of_mem_term (hspelled t ht) hname

theorem mem_conditionFieldNames {guards : List (Option StepGuard)} :
    name ∈ conditionFieldNames py guards ↔ ∃ guard ∈ guards, ∃ g ∈ guard, ∃ text ∈ g.texts,
      name ∈ Front.Condition.references (parsed py text) := by
  simp only [conditionFieldNames, sortTexts, List.mem_insertionSort, List.mem_dedup,
    List.mem_flatMap, Option.mem_toList]
  constructor
  · rintro ⟨text, ⟨guard, hguard, g, hg, htext⟩, hname⟩
    exact ⟨guard, hguard, g, hg, text, htext, hname⟩
  · rintro ⟨guard, hguard, g, hg, text, htext, hname⟩
    exact ⟨text, ⟨guard, hguard, g, hg, htext⟩, hname⟩

variable {s : Stream py}

theorem isReferenceName_of_mem_fields (h : name ∈ s.fields) : isReferenceName py name = true := by
  obtain ⟨guard, -, g, -, text, -, hname⟩ := mem_conditionFieldNames.mp h
  exact isReferenceName_of_mem_references hname

theorem nodup_fields (s : Stream py) : s.fields.Nodup :=
  (List.perm_insertionSort _ _).nodup_iff.mpr (List.nodup_dedup _)

/-- The references of an entry's guard are parameters. -/
theorem mem_fields_of_guard {op : StepOp} (hop : op ∈ s.ops) {g : StepGuard} (hg : g ∈ op.guard)
    (htext : text ∈ g.texts) (hname : name ∈ Front.Condition.references (parsed py text)) :
    name ∈ s.fields := by
  apply mem_conditionFieldNames.mpr
  exact ⟨op.guard, List.mem_append_left _ (List.mem_map_of_mem hop), g, hg, text, htext, hname⟩

/-! ### Constants -/

/-- The values of the constants. -/
def constantValues (py : Python) (ops : List StepOp) : List Nat :=
  let texts := ops.flatMap fun op => op.guard.toList.flatMap StepGuard.texts
  ((texts.flatMap fun text => literals (parsed py text)).dedup).insertionSort (· ≤ ·)

theorem mem_constantValues {value : Nat} :
    value ∈ constantValues py ops ↔ ∃ op ∈ ops, ∃ g ∈ op.guard, ∃ text ∈ g.texts,
      value ∈ literals (parsed py text) := by
  simp only [constantValues, List.mem_insertionSort, List.mem_dedup, List.mem_flatMap,
    Option.mem_toList]
  constructor
  · rintro ⟨text, ⟨op, hop, g, hg, htext⟩, hvalue⟩
    exact ⟨op, hop, g, hg, text, htext, hvalue⟩
  · rintro ⟨op, hop, g, hg, text, htext, hvalue⟩
    exact ⟨text, ⟨op, hop, g, hg, htext⟩, hvalue⟩

theorem nodup_constantValues (ops : List StepOp) : (constantValues py ops).Nodup :=
  (List.perm_insertionSort _ _).nodup_iff.mpr (List.nodup_dedup _)

def constantName (value : Nat) : Ssa := .plain "c" (toString value) ["i64"]

/-- The names that the constants may have. -/
def constantNames (py : Python) (ops : List StepOp) : List Ssa :=
  [.plain "c" "0" [], .plain "c" "1" []] ++
    ((constantValues py ops).map constantName ++ [.plain "true" "" ["i1"]])

theorem sublist_constantLines (ops : List StepOp) :
    (dests (constantLines py ops)).Sublist (constantNames py ops) := by
  have hvalues : dests ((constantValues py ops).map fun value =>
      ⟨some (.plain "c" (toString value) ["i64"]), .constant (.i64 (BitVec.ofNat 64 value)), []⟩) =
        (constantValues py ops).map constantName := by
    unfold dests
    rw [List.filterMap_map]
    exact congrFun List.filterMap_eq_map _
  unfold constantLines
  dsimp only
  rw [dests_append, dests_append, List.append_assoc]
  apply (List.Sublist.refl _).append
  apply List.Sublist.append
  · exact hvalues ▸ List.Sublist.refl _
  · split
    · exact List.Sublist.refl _
    · exact List.nil_sublist _

theorem constants_subset (ops : List StepOp) :
    .plain "c" "0" [] ∈ dests (constantLines py ops) ∧
      .plain "c" "1" [] ∈ dests (constantLines py ops) :=
  ⟨List.mem_cons_self, List.mem_cons_of_mem _ List.mem_cons_self⟩

/-! ### The function's own names -/

/-- The names that are no references: the flag, the constants and what the entries define. -/
def ownNames (s : Stream py) : List Ssa :=
  .plain "skip" "" [] :: (dests (constantLines py s.ops) ++
    (streamLines py 1 s.ops).flatMap Line.dests)

/-- Letters, a number, and suffixes that are not empty. -/
def Ssa.Own (n : Ssa) : Prop :=
  n.Plain ∧ ∃ word number suffixes, n = .plain word number suffixes ∧
    ∀ suffix ∈ suffixes, suffix ≠ ""

theorem alpha_of_mem_stepWords {word : String} (h : word ∈ stepWords) :
    word.toList.all Char.isAlpha = true := by
  have hall : stepWords.all (fun word => word.toList.all Char.isAlpha) = true := by decide
  exact List.all_eq_true.mp hall word h

theorem own_of_spelt {step : Nat} {n : Ssa} (h : Spelt stepWords step [] n) : n.Own := by
  obtain ⟨word, hword, rest, hrest, rfl⟩ := h
  refine ⟨⟨alpha_of_mem_stepWords hword, all_isDigit_toString step, ?_⟩, word, toString step, rest,
    rfl, ?_⟩
  · exact fun suffix hsuffix => (hrest suffix hsuffix).1
  · exact fun suffix hsuffix => (hrest suffix hsuffix).2

theorem own_constantNames : ∀ n ∈ constantNames py ops, n.Own := by
  have hbare (number : String) (hdigits : number.toList.all Char.isDigit = true) :
      (Ssa.plain "c" number []).Own :=
    ⟨⟨by decide, hdigits, (fun _ h => absurd h List.not_mem_nil)⟩, "c", number, [], rfl,
      (fun _ h => absurd h List.not_mem_nil)⟩
  have hsuffix (word number suffix : String) (hword : word.toList.all Char.isAlpha = true)
      (hdigits : number.toList.all Char.isDigit = true) (hone : '_' ∉ suffix.toList)
      (hne : suffix ≠ "") : (Ssa.plain word number [suffix]).Own := by
    refine ⟨⟨hword, hdigits, ?_⟩, word, number, [suffix], rfl, ?_⟩
    · intro suffix' hmem
      rw [List.mem_singleton.mp hmem]
      exact hone
    · intro suffix' hmem
      rw [List.mem_singleton.mp hmem]
      exact hne
  intro n hn
  rcases List.mem_append.mp hn with hn | hn
  · rcases List.mem_cons.mp hn with rfl | hn
    · exact hbare "0" (by decide)
    · rw [List.mem_singleton.mp hn]
      exact hbare "1" (by decide)
  rcases List.mem_append.mp hn with hn | hn
  · obtain ⟨value, -, rfl⟩ := List.mem_map.mp hn
    exact hsuffix "c" (toString value) "i64" (by decide) (all_isDigit_toString value) (by decide)
      (by decide)
  · rw [List.mem_singleton.mp hn]
    exact hsuffix "true" "" "i1" (by decide) (by decide) (by decide) (by decide)

theorem nodup_constantNames (ops : List StepOp) : (constantNames py ops).Nodup := by
  have hvalues : ((constantValues py ops).map constantName).Nodup := by
    apply List.Nodup.map_on _ (nodup_constantValues ops)
    intro a _ b _ heq
    exact nat_toString_inj (Ssa.plain.inj heq).2.1
  unfold constantNames
  rw [List.nodup_append, List.nodup_append]
  refine ⟨by decide, ⟨hvalues, List.nodup_singleton _, ?_⟩, ?_⟩
  · rintro _ hvalue n hn rfl
    obtain ⟨value, -, heq⟩ := List.mem_map.mp hvalue
    rw [List.mem_singleton.mp hn] at heq
    exact absurd (Ssa.plain.inj heq).1 (by decide)
  · intro m hbare n hn heq
    rw [heq] at hbare
    have hsuffixes : ∃ word number suffix, n = .plain word number [suffix] := by
      rcases List.mem_append.mp hn with hn | hn
      · obtain ⟨value, -, rfl⟩ := List.mem_map.mp hn
        exact ⟨"c", toString value, "i64", rfl⟩
      · exact ⟨"true", "", "i1", List.mem_singleton.mp hn⟩
    obtain ⟨word, number, suffix, rfl⟩ := hsuffixes
    rcases List.mem_cons.mp hbare with heq | hbare
    · cases (Ssa.plain.inj heq).2.2
    · cases (Ssa.plain.inj (List.mem_singleton.mp hbare)).2.2

theorem own_ownNames : ∀ n ∈ ownNames s, n.Own := by
  intro n hn
  rcases List.mem_cons.mp hn with rfl | hn
  · exact ⟨⟨by decide, by decide, (fun _ h => absurd h List.not_mem_nil)⟩, "skip", "", [], rfl,
      (fun _ h => absurd h List.not_mem_nil)⟩
  rcases List.mem_append.mp hn with hn | hn
  · exact own_constantNames n ((sublist_constantLines s.ops).subset hn)
  · obtain ⟨k, -, hspelt⟩ := spelt_streamNames n ((sublist_streamLines s.ops 1).subset hn)
    exact own_of_spelt hspelt

theorem nodup_ownNames (s : Stream py) : (ownNames s).Nodup := by
  have hstream := (@nodup_streamNames py s.ops 1).sublist (sublist_streamLines s.ops 1)
  have hconstants := (@nodup_constantNames py s.ops).sublist (sublist_constantLines s.ops)
  have hword {n : Ssa} (hn : n ∈ (streamLines py 1 s.ops).flatMap Line.dests) :
      ∃ (k : Nat) (word : String) (suffixes : List String), word ∈ stepWords ∧
        n = .plain word (toString k) suffixes := by
    obtain ⟨k, -, word, hword, rest, -, rfl⟩ :=
      spelt_streamNames n ((sublist_streamLines s.ops 1).subset hn)
    exact ⟨k, word, rest, hword, rfl⟩
  have hconstant {n : Ssa} (hn : n ∈ dests (constantLines py s.ops)) :
      ∃ word number suffixes, word ∈ ["c", "true"] ∧ n = .plain word number suffixes := by
    have hn := (sublist_constantLines s.ops).subset hn
    rcases List.mem_append.mp hn with hn | hn
    · rcases List.mem_cons.mp hn with rfl | hn
      · exact ⟨"c", "0", [], by decide, rfl⟩
      · exact ⟨"c", "1", [], by decide, List.mem_singleton.mp hn⟩
    rcases List.mem_append.mp hn with hn | hn
    · obtain ⟨value, -, rfl⟩ := List.mem_map.mp hn
      exact ⟨"c", toString value, ["i64"], by decide, rfl⟩
    · exact ⟨"true", "", ["i1"], by decide, List.mem_singleton.mp hn⟩
  unfold ownNames
  rw [List.nodup_cons, List.nodup_append]
  refine ⟨?_, hconstants, hstream, ?_⟩
  · intro hmem
    rcases List.mem_append.mp hmem with hmem | hmem
    · obtain ⟨word, number, suffixes, hw, heq⟩ := hconstant hmem
      rw [← (Ssa.plain.inj heq).1] at hw
      exact absurd hw (by decide)
    · obtain ⟨k, word, suffixes, -, heq⟩ := hword hmem
      have hempty := congrArg String.toList (Ssa.plain.inj heq).2.1
      rw [Front.toList_toString] at hempty
      exact Nat.toDigits_ne_nil hempty.symm
  · rintro n hn n' hn' rfl
    obtain ⟨word, number, suffixes, hw, rfl⟩ := hconstant hn
    obtain ⟨k, word', suffixes', hw', heq⟩ := hword hn'
    rw [← (Ssa.plain.inj heq).1] at hw'
    rcases List.mem_cons.mp hw with rfl | hw
    · exact absurd hw' (by decide)
    · rw [List.mem_singleton.mp hw] at hw'
      exact absurd hw' (by decide)

/-! ### Clashes -/

theorem definitions_renderStd (s : Stream py) : definitions (renderStd s).lines =
    (dests (constantLines py s.ops) ++ (streamLines py 1 s.ops).flatMap Line.dests).map
      Ssa.text := by
  rw [definitions_eq_dests]
  show (((constantLines py s.ops).map Line.instr ++ streamLines py 1 s.ops).flatMap
    Line.dests).map Ssa.text = _
  rw [List.flatMap_append, dests_lines]

theorem nodup_parameters (s : Stream py) : (s.fields.map fieldIdent).Nodup := by
  apply List.Nodup.map_on _ (nodup_fields s)
  intro a ha b hb heq
  exact fieldIdent_inj (isReferenceName_of_mem_fields ha) (isReferenceName_of_mem_fields hb) heq

/-- Every name is defined once iff no parameter is printed like a name of the function's own. -/
theorem definesOnce_iff (s : Stream py) : (renderStd s).DefinesOnce ↔
    ∀ name ∈ s.fields, ∀ n ∈ ownNames s, fieldIdent name ≠ n.text := by
  have hown : ((ownNames s).map Ssa.text).Nodup := by
    apply List.Nodup.map_on _ (nodup_ownNames s)
    intro n hn n' hn' heq
    exact text_inj (own_ownNames n hn).1 (own_ownNames n' hn').1 heq
  have hperm : ((renderStd s).params.map Ssa.text ++ definitions (renderStd s).lines).Perm
      (s.fields.map fieldIdent ++ (ownNames s).map Ssa.text) := by
    rw [definitions_renderStd]
    show (Ssa.text (.plain "skip" "" []) :: (s.fields.map Ssa.field).map Ssa.text ++ _).Perm
      (s.fields.map fieldIdent ++ (Ssa.text (.plain "skip" "" []) :: _))
    rw [List.map_map]
    exact List.perm_middle.symm
  unfold Func.DefinesOnce
  rw [hperm.nodup_iff, List.nodup_append]
  constructor
  · rintro ⟨-, -, hdisjoint⟩ name hname n hn
    exact hdisjoint _ (List.mem_map_of_mem hname) _ (List.mem_map_of_mem hn)
  · intro h
    refine ⟨nodup_parameters s, hown, ?_⟩
    intro a ha b hb
    obtain ⟨name, hname, rfl⟩ := List.mem_map.mp ha
    obtain ⟨n, hn, rfl⟩ := List.mem_map.mp hb
    exact h name hname n hn

/-- What the entries define is defined by one of them. -/
theorem mem_streamLines {n : Ssa} :
    ∀ {step : Nat}, n ∈ (streamLines py step ops).flatMap Line.dests ↔
      ∃ k op, ops[k]? = some op ∧ n ∈ (stepLines py (step + k) op).flatMap Line.dests := by
  induction ops with
  | nil =>
    intro step
    refine iff_of_false List.not_mem_nil ?_
    rintro ⟨k, op, hop, -⟩
    cases hop
  | cons op ops ih =>
    intro step
    unfold streamLines
    rw [List.flatMap_append, List.mem_append, ih]
    constructor
    · rintro (hmem | ⟨k, op', hop, hmem⟩)
      · exact ⟨0, op, rfl, hmem⟩
      · refine ⟨k + 1, op', hop, ?_⟩
        rw [show step + (k + 1) = step + 1 + k by omega]
        exact hmem
    · rintro ⟨k, op', hop, hmem⟩
      cases k with
      | zero =>
        rw [← Option.some.inj hop] at hmem
        exact .inl hmem
      | succ k =>
        refine .inr ⟨k, op', hop, ?_⟩
        rw [show step + 1 + k = step + (k + 1) by omega]
        exact hmem

theorem fieldIdent_of_not_dot (h : '.' ∉ name.toList) : fieldIdent name = name := by
  apply String.toList_inj.mp
  unfold fieldIdent
  rw [String.toList_ofList, flatMap_underscores h]

theorem text_bare (word number : String) : (Ssa.plain word number []).text = word ++ number := by
  show word ++ number ++ String.join [] = word ++ number
  rw [String.join_nil, String.append_empty]

/-- A name of the function's own without underscores is the parameter of a reference that is spelt
like it. -/
theorem fieldIdent_bare {word number : String} (h : (Ssa.plain word number []).Plain) :
    fieldIdent (word ++ number) = (Ssa.plain word number []).text := by
  rw [text_bare]
  apply fieldIdent_of_not_dot
  rw [String.toList_append, List.mem_append]
  rintro (hw | hn)
  · exact not_mem_of_all h.1 (by decide) hw
  · exact not_mem_of_all h.2.1 (by decide) hn

/-- **Every name is defined once** iff no reference is spelt like a name without underscores. -/
theorem definesOnce_iff_names (s : Stream py) : (renderStd s).DefinesOnce ↔
    (∀ name ∈ s.fields, name ∉ ["skip", "c0", "c1"]) ∧
      ∀ name ∈ s.fields, ∀ (n : Nat) op, s.ops[n]? = some op →
        name ∉ plainNames py (n + 1) op := by
  rw [definesOnce_iff]
  constructor
  · intro h
    have hbare (word number : String) (hmem : .plain word number [] ∈ ownNames s) :
        word ++ number ∉ s.fields := by
      intro hname
      exact h _ hname _ hmem (fieldIdent_bare (own_ownNames _ hmem).1)
    constructor
    · intro name hname hmem
      rcases List.mem_cons.mp hmem with rfl | hmem
      · exact hbare "skip" "" List.mem_cons_self hname
      rcases List.mem_cons.mp hmem with rfl | hmem
      · exact hbare "c" "0" (List.mem_cons_of_mem _
          (List.mem_append_left _ (constants_subset s.ops).1)) hname
      · rw [List.mem_singleton.mp hmem] at hname
        exact hbare "c" "1" (List.mem_cons_of_mem _
          (List.mem_append_left _ (constants_subset s.ops).2)) hname
    · intro name hname n op hop hmem
      obtain ⟨word, hword, rfl⟩ := List.mem_map.mp hmem
      have hline : .plain word (toString (n + 1)) [] ∈
          (stepLines py (n + 1) op).flatMap Line.dests := bare_stepLines.mpr hword
      refine hbare word (toString (n + 1)) (List.mem_cons_of_mem _ (List.mem_append_right _ ?_))
        hname
      apply mem_streamLines.mpr
      refine ⟨n, op, hop, ?_⟩
      rw [Nat.add_comm 1 n]
      exact hline
  · rintro ⟨hfixed, hnames⟩ name hname n hn heq
    obtain ⟨hplain, word, number, suffixes, rfl, hsuffixes⟩ := own_ownNames n hn
    obtain ⟨rfl, rfl⟩ := eq_of_fieldIdent_eq (isReferenceName_of_mem_fields hname) hplain hsuffixes
      heq
    rcases List.mem_cons.mp hn with hskip | hn
    · obtain ⟨rfl, rfl, -⟩ := Ssa.plain.inj hskip
      exact hfixed _ hname List.mem_cons_self
    rcases List.mem_append.mp hn with hn | hn
    · -- a constant
      have hn := (sublist_constantLines s.ops).subset hn
      rcases List.mem_append.mp hn with hn | hn
      · rcases List.mem_cons.mp hn with hc | hn
        · obtain ⟨rfl, rfl, -⟩ := Ssa.plain.inj hc
          exact hfixed _ hname (by decide)
        · obtain ⟨rfl, rfl, -⟩ := Ssa.plain.inj (List.mem_singleton.mp hn)
          exact hfixed _ hname (by decide)
      rcases List.mem_append.mp hn with hn | hn
      · obtain ⟨value, -, heq⟩ := List.mem_map.mp hn
        cases (Ssa.plain.inj heq).2.2
      · cases (Ssa.plain.inj (List.mem_singleton.mp hn)).2.2
    · obtain ⟨k, op, hop, hmem⟩ := mem_streamLines.mp hn
      obtain ⟨word', -, rest, -, hspelt⟩ := spelt_stepNames _ ((sublist_stepLines _ op).subset hmem)
      obtain ⟨rfl, rfl, -⟩ := Ssa.plain.inj hspelt
      rw [Nat.add_comm 1 k] at hmem hname
      exact hnames _ hname k op hop (List.mem_map_of_mem (bare_stepLines.mp hmem))

end Lnpl.Backend
