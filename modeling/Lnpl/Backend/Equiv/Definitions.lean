import Lnpl.Backend.Equiv.Names
import Mathlib.Data.List.ProdSigma

/-!
# Definitions of the rendered function

No name of the function's own is defined twice: the names of an entry carry its number, those of an
alternative the alternative's, those of a comparison the comparison's, and the words differ where
the numbers do not.
-/

namespace Lnpl.Backend

open Front (Python)

/-! ### Defined names -/

def dests (is : List Instr) : List Ssa := is.filterMap Lib.Instr.dest

def Line.dests : Line → List Ssa
  | .instr i => Backend.dests [i]
  | .scfIf _ body => Backend.dests body

theorem dests_append (is is' : List Instr) : dests (is ++ is') = dests is ++ dests is' :=
  List.filterMap_append

theorem results_eq_dests (is : List Instr) : mlir.results is = (dests is).map Ssa.text := by
  unfold dests
  rw [List.map_filterMap]
  rfl

theorem definitions_eq_dests (lines : List Line) :
    definitions lines = (lines.flatMap Line.dests).map Ssa.text := by
  unfold definitions
  rw [List.map_flatMap]
  apply List.flatMap_congr
  intro line _
  cases line with
  | instr i => exact results_eq_dests [i]
  | scfIf condition body => exact results_eq_dests body

theorem dests_lines (is : List Instr) : (is.map Line.instr).flatMap Line.dests = dests is := by
  induction is with
  | nil => rfl
  | cons i is ih =>
    rw [List.map_cons, List.flatMap_cons, ih]
    exact (dests_append [i] is).symm

/-! ### Names of an entry -/

/-- A name of the given entry: one of the words, its number, and what begins with `first`. -/
def Spelt (words : List String) (step : Nat) (first : List String) (s : Ssa) : Prop :=
  ∃ word ∈ words, ∃ rest : List String, (∀ suffix ∈ rest, '_' ∉ suffix.toList ∧ suffix ≠ "") ∧
    s = .plain word (toString step) (first ++ rest)

variable {words words' texts : List String} {step n len : Nat} {idx : Index} {word number : String}
  {cond : Option Front.Condition} {t : Front.Comparison}

variable {s : Ssa} {first' : List String} {tag : String × String} {guard : StepGuard} {op : StepOp}

theorem Spelt.mono {first : List String} (h : Spelt words step first s)
    (hwords : ∀ word ∈ words, word ∈ words') :
    Spelt words' step first s := by
  obtain ⟨word, hword, rest, hrest, rfl⟩ := h
  exact ⟨word, hwords word hword, rest, hrest, rfl⟩

/-- Names of different words are different. -/
theorem Spelt.ne {step' : Nat} {first : List String} {s' : Ssa} (h : Spelt words step first s)
    (h' : Spelt words' step' first' s') (hdisjoint : ∀ word ∈ words, word ∉ words') : s ≠ s' := by
  obtain ⟨word, hword, rest, -, rfl⟩ := h
  obtain ⟨word', hword', rest', -, rfl⟩ := h'
  intro heq
  obtain ⟨rfl, -⟩ := Ssa.plain.inj heq
  exact hdisjoint _ hword hword'

theorem nodup_append_of_spelt {first : List String} {l l' : List Ssa} (hl : l.Nodup)
    (hl' : l'.Nodup) (h : ∀ s ∈ l, Spelt words step first s)
    (h' : ∀ s ∈ l', Spelt words' step first' s) (hdisjoint : ∀ word ∈ words, word ∉ words') :
    (l ++ l').Nodup := by
  rw [List.nodup_append]
  exact ⟨hl, hl', fun s hs s' hs' => (h s hs).ne (h' s' hs') hdisjoint⟩

theorem numbered_suffix {tail : String} (h : tail.toList.all Char.isAlpha = true) :
    '_' ∉ (toString n ++ tail).toList ∧ toString n ++ tail ≠ "" := by
  constructor
  · rw [String.toList_append, List.mem_append]
    rintro (hn | ht)
    · exact not_mem_of_all (all_isDigit_toString n) (by decide) hn
    · exact not_mem_of_all h (by decide) ht
  · intro hempty
    have hlist := congrArg String.toList hempty
    rw [String.toList_append, Front.toList_toString] at hlist
    exact Nat.toDigits_ne_nil (List.append_eq_nil_iff.mp hlist).1

/-! ### Operands and comparisons -/

/-- The words of what a comparison defines, with the tails of its sides. -/
def termTags : List (String × String) :=
  [("z", "l"), ("sr", "l"), ("v", "l"), ("z", "r"), ("sr", "r"), ("v", "r"), ("cond", "")]

def Index.tagged (idx : Index) (entry : Nat × String × String) : Ssa :=
  idx.name entry.2.1 [toString entry.1 ++ entry.2.2]

theorem alpha_of_mem_termTags (h : tag ∈ termTags) : tag.2.toList.all Char.isAlpha = true := by
  have hall : termTags.all (fun tag => tag.2.toList.all Char.isAlpha) = true := by decide
  exact List.all_eq_true.mp hall tag h

theorem word_of_mem_termTags (h : tag ∈ termTags) : tag.1 ∈ ["z", "sr", "v", "cond"] := by
  have hall : termTags.all (fun tag => ["z", "sr", "v", "cond"].contains tag.1) = true := by decide
  exact List.contains_iff_mem.mp (List.all_eq_true.mp hall tag h)

/-- The names of the comparisons from the `n`-th on. -/
def termNames (idx : Index) (n len : Nat) : List Ssa :=
  ((List.range' n len) ×ˢ termTags).map idx.tagged

theorem nodup_termNames (idx : Index) (n len : Nat) : (termNames idx n len).Nodup := by
  apply List.Nodup.map_on
  · rintro ⟨a, w, t⟩ ha ⟨b, w', t'⟩ hb heq
    have htag := (List.mem_product.mp ha).2
    have htag' := (List.mem_product.mp hb).2
    obtain ⟨hword, -, hsuffixes⟩ := Ssa.plain.inj heq
    have hsuffix := (List.cons.inj (List.append_cancel_left hsuffixes)).1
    obtain ⟨hnumber, htail⟩ := numbered_inj (alpha_of_mem_termTags htag)
      (alpha_of_mem_termTags htag') hsuffix
    dsimp only at hword hnumber htail
    rw [hword, hnumber, htail]
  · exact List.Nodup.product List.nodup_range' (by decide)

/-- The suffix of an alternative. -/
def Index.first (idx : Index) : List String := (idx.alternative.map toString).toList

theorem spelt_termNames :
    ∀ s ∈ termNames idx n len, Spelt ["z", "sr", "v", "cond"] idx.step idx.first s := by
  intro s hs
  obtain ⟨⟨a, tag⟩, hmem, rfl⟩ := List.mem_map.mp hs
  have htag := (List.mem_product.mp hmem).2
  refine ⟨tag.1, word_of_mem_termTags htag, [toString a ++ tag.2], ?_, rfl⟩
  intro suffix hsuffix
  rw [List.mem_singleton.mp hsuffix]
  exact numbered_suffix (alpha_of_mem_termTags htag)

theorem termNames_succ (idx : Index) (n len : Nat) :
    termNames idx n (len + 1) =
      termTags.map (fun tag => idx.tagged (n, tag)) ++ termNames idx (n + 1) len := by
  unfold termNames
  rw [List.range'_succ, List.product_cons, List.map_append, List.map_map]
  rfl

theorem sublist_emitOperand (idx : Index) (slot : String) (v : Front.Value) :
    (dests (emitOperand idx slot v).1).Sublist
      [idx.name "z" [slot], idx.name "sr" [slot], idx.name "v" [slot]] := by
  cases v with
  | operand o => exact List.nil_sublist _
  | arith a =>
    obtain ⟨left, op, right⟩ := a
    have hlast : [idx.name "v" [slot]].Sublist
        [idx.name "z" [slot], idx.name "sr" [slot], idx.name "v" [slot]] :=
      ((List.Sublist.refl _).cons _).cons _
    cases op with
    | add => exact hlast
    | sub => exact hlast
    | mul => exact hlast
    | div => exact List.Sublist.refl _

theorem dests_emitTerm (idx : Index) (n : Nat) (pred : Predicate) (name : Ssa)
    (t : Front.Comparison) :
    dests (emitTerm idx n pred name t) =
      dests (emitOperand idx (toString n ++ "l") t.left).1 ++
        (dests (emitOperand idx (toString n ++ "r") t.right).1 ++ [name]) := by
  unfold emitTerm
  dsimp only
  rw [dests_append, dests_append, List.append_assoc]
  rfl

theorem sublist_emitTerms (idx : Index) (ts : List Front.Comparison) :
    ∀ n, (dests (emitTerms idx n ts).1).Sublist (termNames idx n ts.length) := by
  induction ts with
  | nil => exact fun n => List.nil_sublist _
  | cons t ts ih =>
    intro n
    rw [List.length_cons, termNames_succ]
    show (dests (emitTerm idx n _ _ t ++ (emitTerms idx (n + 1) ts).1)).Sublist _
    rw [dests_append, dests_emitTerm]
    apply List.Sublist.append _ (ih (n + 1))
    have hcond : idx.name "cond" [toString n] = idx.tagged (n, "cond", "") := by
      unfold Index.tagged
      rw [String.append_empty]
    rw [hcond]
    exact (sublist_emitOperand idx _ t.left).append
      ((sublist_emitOperand idx _ t.right).append (List.Sublist.refl _))

/-! ### Folds -/

def foldedNames (idx : Index) (word : String) (n len : Nat) : List Ssa :=
  (List.range' n len).map fun k => idx.name word [toString k]

theorem nodup_foldedNames (idx : Index) (word : String) (n len : Nat) :
    (foldedNames idx word n len).Nodup := by
  apply List.Nodup.map_on _ List.nodup_range'
  intro a _ b _ heq
  obtain ⟨-, -, hsuffixes⟩ := Ssa.plain.inj heq
  exact nat_toString_inj (List.cons.inj (List.append_cancel_left hsuffixes)).1

theorem spelt_foldedNames :
    ∀ s ∈ foldedNames idx word n len, Spelt [word] idx.step idx.first s := by
  intro s hs
  obtain ⟨k, -, rfl⟩ := List.mem_map.mp hs
  refine ⟨word, List.mem_singleton_self word, [toString k], ?_, rfl⟩
  intro suffix hsuffix
  rw [List.mem_singleton.mp hsuffix, ← @String.append_empty (toString k)]
  exact numbered_suffix rfl

theorem dests_foldNames (word : String) (op : Opcode) (idx : Index) (names : List Ssa) :
    ∀ n folded, dests (foldNames word op idx n folded names).1 =
      foldedNames idx word n names.length := by
  induction names with
  | nil => exact fun n folded => rfl
  | cons name names ih =>
    intro n folded
    unfold foldedNames
    rw [List.length_cons, List.range'_succ, List.map_cons]
    exact congrArg (idx.name word [toString n] :: ·) (ih (n + 1) _)

/-! ### Conditions -/

/-- The words of what a condition defines. -/
def condWords : List String := ["z", "sr", "v", "cond", "and", "ucond"]

def condNames (idx : Index) (len : Nat) : List Ssa :=
  termNames idx 0 len ++ (foldedNames idx "and" 1 len ++ [idx.name "cond" [], idx.name "ucond" []])

theorem spelt_bare (h : word ∈ words) (idx : Index) :
    Spelt words idx.step idx.first (idx.name word []) :=
  ⟨word, h, [], (fun _ hmem => absurd hmem List.not_mem_nil), rfl⟩

theorem spelt_condNames : ∀ s ∈ condNames idx len, Spelt condWords idx.step idx.first s := by
  intro s hs
  rcases List.mem_append.mp hs with hs | hs
  · exact (spelt_termNames s hs).mono (by decide)
  rcases List.mem_append.mp hs with hs | hs
  · exact (spelt_foldedNames s hs).mono (by decide)
  rcases List.mem_cons.mp hs with rfl | hs
  · exact spelt_bare (by decide) idx
  · rw [List.mem_singleton.mp hs]
    exact spelt_bare (by decide) idx

theorem nodup_condNames (idx : Index) (len : Nat) : (condNames idx len).Nodup := by
  have hbare : [idx.name "cond" [], idx.name "ucond" []].Nodup := by
    have hne : idx.name "cond" [] ≠ idx.name "ucond" [] := by
      intro heq
      exact absurd (Ssa.plain.inj heq).1 (by decide)
    simpa using hne
  have hlast : ∀ s ∈ [idx.name "cond" [], idx.name "ucond" []],
      Spelt ["cond", "ucond"] idx.step idx.first s := by
    intro s hs
    rcases List.mem_cons.mp hs with rfl | hs
    · exact spelt_bare (by decide) idx
    · rw [List.mem_singleton.mp hs]
      exact spelt_bare (by decide) idx
  have hrest := nodup_append_of_spelt (nodup_foldedNames idx "and" 1 len) hbare
    spelt_foldedNames hlast (by decide)
  unfold condNames
  rw [List.nodup_append]
  refine ⟨nodup_termNames idx 0 len, hrest, ?_⟩
  intro s hs s' hs'
  rcases List.mem_append.mp hs' with hs' | hs'
  · exact (spelt_termNames s hs).ne (spelt_foldedNames s' hs') (by decide)
  · -- the name of a comparison has a suffix more
    obtain ⟨entry, -, rfl⟩ := List.mem_map.mp hs
    have hsuffix (word : String) : idx.tagged entry ≠ idx.name word [] := by
      intro heq
      obtain ⟨-, -, hsuffixes⟩ := Ssa.plain.inj heq
      exact List.cons_ne_nil _ _ (List.append_cancel_left hsuffixes)
    rcases List.mem_cons.mp hs' with rfl | hs'
    · exact hsuffix "cond"
    · rw [List.mem_singleton.mp hs']
      exact hsuffix "ucond"

theorem length_emitTerms (idx : Index) (ts : List Front.Comparison) :
    ∀ n, (emitTerms idx n ts).2.length = ts.length := by
  induction ts with
  | nil => exact fun n => rfl
  | cons t ts ih => exact fun n => congrArg (· + 1) (ih (n + 1))

/-- What the lines of a condition of several comparisons are. -/
theorem emitCondition_of_two {t' : Front.Comparison} {rest : List Front.Comparison}
    (h : comparisons cond = t :: t' :: rest) (idx : Index) (negate : Bool) :
    emitCondition cond idx negate =
      let emitted := emitTerms idx 0 (t :: t' :: rest)
      let folded := foldNames "and" .andi idx 1 (idx.name "cond" [toString 0]) emitted.2.tail
      if negate then
        (emitted.1 ++ folded.1 ++
            [⟨some (idx.name "ucond" []), .xori, [folded.2, .plain "true" "" ["i1"]]⟩],
          some (idx.name "ucond" []))
      else (emitted.1 ++ folded.1, some folded.2) := by
  unfold emitCondition
  rw [h]
  rfl

theorem emitCondition_of_one (h : comparisons cond = [t]) (idx : Index) (negate : Bool) :
    emitCondition cond idx negate =
      let name := idx.name (if negate then "ucond" else "cond") []
      (emitTerm idx 0 (if negate then negatedCmp t.op else cmpPred t.op) name t, some name) := by
  unfold emitCondition
  rw [h]

theorem emitCondition_of_none (h : comparisons cond = []) (idx : Index) (negate : Bool) :
    emitCondition cond idx negate = ([], none) := by
  unfold emitCondition
  rw [h]

theorem sublist_emitCondition (cond : Option Front.Condition) (idx : Index) (negate : Bool) :
    (dests (emitCondition cond idx negate).1).Sublist
      (condNames idx (comparisons cond).length) := by
  match h : comparisons cond with
  | [] =>
    rw [emitCondition_of_none h]
    exact List.nil_sublist _
  | [t] =>
    rw [emitCondition_of_one h]
    dsimp only
    rw [dests_emitTerm, ← List.append_assoc]
    have hsides : (dests (emitOperand idx (toString 0 ++ "l") t.left).1 ++
        dests (emitOperand idx (toString 0 ++ "r") t.right).1).Sublist
          (termNames idx 0 [t].length) := by
      rw [List.length_singleton, termNames_succ]
      refine List.Sublist.trans ?_ (List.sublist_append_left _ _)
      have hsix := (sublist_emitOperand idx (toString 0 ++ "l") t.left).append
        (sublist_emitOperand idx (toString 0 ++ "r") t.right)
      exact hsix.trans (List.sublist_append_left _ [idx.tagged (0, "cond", "")])
    apply hsides.append
    refine List.Sublist.trans ?_ (List.sublist_append_right _ _)
    cases negate with
    | true => exact (List.Sublist.refl _).cons _
    | false => exact ((List.nil_sublist _)).cons_cons _
  | t :: t' :: rest =>
    have hlength : (emitTerms idx 0 (t :: t' :: rest)).2.tail.length ≤ (t :: t' :: rest).length := by
      rw [List.length_tail, length_emitTerms]
      exact Nat.sub_le _ _
    have hfolded (folded : Ssa) : (dests (foldNames "and" .andi idx 1 folded
        (emitTerms idx 0 (t :: t' :: rest)).2.tail).1).Sublist
          (foldedNames idx "and" 1 (t :: t' :: rest).length) := by
      rw [dests_foldNames]
      exact (List.range'_sublist_right.mpr hlength).map _
    rw [emitCondition_of_two h]
    dsimp only
    unfold condNames
    cases negate with
    | true =>
      rw [if_pos rfl]
      dsimp only
      rw [dests_append, dests_append, List.append_assoc]
      apply (sublist_emitTerms idx _ 0).append
      apply (hfolded _).append
      exact (List.Sublist.refl _).cons _
    | false =>
      rw [if_neg Bool.false_ne_true]
      dsimp only
      rw [dests_append]
      apply (sublist_emitTerms idx _ 0).append
      exact (hfolded _).trans (List.sublist_append_left _ _)

/-! ### Alternatives -/

def altNames (py : Python) (step : Nat) : Nat → List String → List Ssa
  | _, [] => []
  | n, text :: rest =>
    condNames ⟨step, some n⟩ (comparisons (parsed py text)).length ++ altNames py step (n + 1) rest

variable {py : Python}

theorem mem_altNames :
    ∀ {n : Nat}, ∀ s ∈ altNames py step n texts,
      ∃ k, n ≤ k ∧ Spelt condWords step [toString k] s := by
  induction texts with
  | nil => exact fun s hs => nomatch hs
  | cons text rest ih =>
    intro n s hs
    rcases List.mem_append.mp hs with hs | hs
    · exact ⟨n, Nat.le_refl n, spelt_condNames s hs⟩
    · obtain ⟨k, hk, hspelt⟩ := ih s hs
      exact ⟨k, Nat.le_of_succ_le hk, hspelt⟩

theorem spelt_altNames : ∀ s ∈ altNames py step n texts, Spelt condWords step [] s := by
  intro s hs
  obtain ⟨k, -, word, hword, rest, hrest, rfl⟩ := mem_altNames s hs
  refine ⟨word, hword, toString k :: rest, ?_, rfl⟩
  intro suffix hsuffix
  rcases List.mem_cons.mp hsuffix with rfl | hsuffix
  · rw [← @String.append_empty (toString k)]
    exact numbered_suffix rfl
  · exact hrest suffix hsuffix

theorem nodup_altNames : ∀ n, (altNames py step n texts).Nodup := by
  induction texts with
  | nil => exact fun n => List.nodup_nil
  | cons text rest ih =>
    intro n
    unfold altNames
    rw [List.nodup_append]
    refine ⟨nodup_condNames _ _, ih (n + 1), ?_⟩
    rintro s hs _ hs' rfl
    obtain ⟨word, -, rest, -, rfl⟩ := spelt_condNames s hs
    obtain ⟨k, hk, word', -, rest', -, heq⟩ := mem_altNames _ hs'
    obtain ⟨-, -, hsuffixes⟩ := Ssa.plain.inj heq
    have hnumber := nat_toString_inj (List.cons.inj hsuffixes).1
    omega

theorem sublist_emitAlternatives (step : Nat) (texts : List String) :
    ∀ n, (dests (emitAlternatives py step n texts).1).Sublist (altNames py step n texts) := by
  induction texts with
  | nil => exact fun n => List.nil_sublist _
  | cons text rest ih =>
    intro n
    have hfirst := sublist_emitCondition (parsed py text) ⟨step, some n⟩ false
    unfold emitAlternatives altNames
    dsimp only
    cases (emitCondition (parsed py text) ⟨step, some n⟩ false).2 with
    | none => exact hfirst.trans (List.sublist_append_left _ _)
    | some name =>
      dsimp only
      rw [dests_append]
      exact hfirst.append (ih (n + 1))

/-! ### Entries -/

/-- The names that a guard may define. -/
def guardNames (py : Python) (step : Nat) : StepGuard → List Ssa
  | .when condition alternatives =>
    (if alternatives.isEmpty then condNames ⟨step, none⟩ (comparisons (parsed py condition)).length
      else altNames py step 0 (condition :: alternatives) ++
        foldedNames ⟨step, none⟩ "or" 1 (alternatives.length + 1)) ++
      [.plain "skip" (toString step) []]
  | .until condition => condNames ⟨step, none⟩ (comparisons (parsed py condition)).length

/-- The words of what a guard defines. -/
def guardWords : List String := ["z", "sr", "v", "cond", "and", "ucond", "or", "skip"]

theorem spelt_guardNames : ∀ s ∈ guardNames py step guard, Spelt guardWords step [] s := by
  intro s hs
  cases guard with
  | «until» condition => exact (spelt_condNames s hs).mono (by decide)
  | «when» condition alternatives =>
    rcases List.mem_append.mp hs with hs | hs
    · cases alternatives with
      | nil => exact (spelt_condNames s hs).mono (by decide)
      | cons text rest =>
        rcases List.mem_append.mp hs with hs | hs
        · exact (spelt_altNames s hs).mono (by decide)
        · exact (spelt_foldedNames s hs).mono (by decide)
    · rw [List.mem_singleton.mp hs]
      exact spelt_bare (by decide) ⟨step, none⟩

theorem nodup_guardNames (step : Nat) (guard : StepGuard) :
    (guardNames py step guard).Nodup := by
  cases guard with
  | «until» condition => exact nodup_condNames _ _
  | «when» condition alternatives =>
    have hskip : ∀ s ∈ [Ssa.plain "skip" (toString step) []], Spelt ["skip"] step [] s := by
      intro s hs
      rw [List.mem_singleton.mp hs]
      exact spelt_bare (by decide) ⟨step, none⟩
    cases alternatives with
    | nil =>
      exact nodup_append_of_spelt (nodup_condNames _ _) (List.nodup_singleton _) spelt_condNames
        hskip (by decide)
    | cons text rest =>
      have halt : ∀ s ∈ altNames py step 0 (condition :: text :: rest), Spelt condWords step [] s :=
        spelt_altNames
      have hor : ∀ s ∈ foldedNames ⟨step, none⟩ "or" 1 ((text :: rest).length + 1),
          Spelt ["or"] step [] s := spelt_foldedNames
      have hboth : ∀ s ∈ altNames py step 0 (condition :: text :: rest) ++
          foldedNames ⟨step, none⟩ "or" 1 ((text :: rest).length + 1),
          Spelt ("or" :: condWords) step [] s := by
        intro s hs
        rcases List.mem_append.mp hs with hs | hs
        · exact (halt s hs).mono (by decide)
        · exact (hor s hs).mono (by decide)
      have hfolded := nodup_append_of_spelt (nodup_altNames 0) (nodup_foldedNames _ "or" 1 _) halt
        hor (by decide)
      exact nodup_append_of_spelt hfolded (List.nodup_singleton _) hboth hskip (by decide)

theorem length_of_emitAlternatives :
    ∀ {n : Nat} {names : List Ssa}, (emitAlternatives py step n texts).2 = some names →
      names.length = texts.length := by
  induction texts with
  | nil =>
    intro n names h
    rw [← Option.some.inj h]
    rfl
  | cons text rest ih =>
    intro n names h
    unfold emitAlternatives at h
    dsimp only at h
    cases hname : (emitCondition (parsed py text) ⟨step, some n⟩ false).2 with
    | none =>
      rw [hname] at h
      cases h
    | some name =>
      rw [hname] at h
      dsimp only at h
      obtain ⟨tail, htail, rfl⟩ := Option.map_eq_some_iff.mp h
      rw [List.length_cons, List.length_cons, ih htail]

theorem sublist_emitAltCondition (step : Nat) (texts : List String) :
    (dests (emitAltCondition py texts step).1).Sublist
      (altNames py step 0 texts ++ foldedNames ⟨step, none⟩ "or" 1 texts.length) := by
  have hfirst := @sublist_emitAlternatives py step texts 0
  have halone := hfirst.trans
    (List.sublist_append_left _ (foldedNames ⟨step, none⟩ "or" 1 texts.length))
  unfold emitAltCondition
  dsimp only
  cases hnames : (emitAlternatives py step 0 texts).2 with
  | none => exact halone
  | some names =>
    cases names with
    | nil => exact halone
    | cons first rest =>
      have hlength := length_of_emitAlternatives hnames
      rw [List.length_cons] at hlength
      dsimp only
      rw [dests_append, dests_foldNames]
      apply hfirst.append
      exact (List.range'_sublist_right.mpr (by omega)).map _

theorem sublist_emitGuard (step : Nat) (guard : StepGuard) :
    (dests (emitGuard py step guard).1).Sublist (guardNames py step guard) := by
  cases guard with
  | «until» condition => exact sublist_emitCondition _ _ true
  | «when» condition alternatives =>
    have hemitted : (dests (if alternatives.isEmpty then
          emitCondition (parsed py condition) ⟨step, none⟩ false
        else emitAltCondition py (condition :: alternatives) step).1).Sublist
        (if alternatives.isEmpty then
          condNames ⟨step, none⟩ (comparisons (parsed py condition)).length
        else altNames py step 0 (condition :: alternatives) ++
          foldedNames ⟨step, none⟩ "or" 1 (alternatives.length + 1)) := by
      cases alternatives with
      | nil => exact sublist_emitCondition _ _ false
      | cons text rest => exact sublist_emitAltCondition step _
    unfold emitGuard guardNames
    dsimp only
    cases (if alternatives.isEmpty then emitCondition (parsed py condition) ⟨step, none⟩ false
        else emitAltCondition py (condition :: alternatives) step).2 with
    | some name => exact hemitted.trans (List.sublist_append_left _ _)
    | none =>
      dsimp only
      rw [dests_append]
      exact hemitted.append (List.Sublist.refl _)

/-- The names that the calls of an entry define. -/
def callNames (step : Nat) (effects : List String) : List Ssa :=
  .plain "r" (toString step) [] :: (List.range' 0 effects.length).map fun n =>
    .plain "k" (toString step) [toString n]

theorem dests_stepCalls (step : Nat) (effects : List String) :
    dests (stepCalls step effects) = callNames step effects := by
  have heffects (n : Nat) : dests ((effects.zipIdx n).flatMap fun e =>
      [⟨some (.plain "k" (toString step) [toString e.2]), .addressof e.1, []⟩,
        ⟨none, .callEffect, [.plain "p" (toString step) [],
          .plain "k" (toString step) [toString e.2]]⟩]) =
      (List.range' n effects.length).map fun n => Ssa.plain "k" (toString step) [toString n] := by
    induction effects generalizing n with
    | nil => rfl
    | cons kind effects ih =>
      rw [List.zipIdx_cons, List.flatMap_cons, dests_append, ih (n + 1), List.length_cons,
        List.range'_succ, List.map_cons]
      rfl
  unfold stepCalls callNames
  dsimp only
  rw [← heffects 0]
  rfl

theorem nodup_callNames (step : Nat) (effects : List String) :
    (callNames step effects).Nodup := by
  unfold callNames
  rw [List.nodup_cons]
  constructor
  · intro hmem
    obtain ⟨n, -, heq⟩ := List.mem_map.mp hmem
    exact absurd (Ssa.plain.inj heq).1 (by decide)
  · exact nodup_foldedNames ⟨step, none⟩ "k" 0 effects.length

theorem spelt_callNames {effects : List String} :
    ∀ s ∈ callNames step effects, Spelt ["r", "k"] step [] s := by
  intro s hs
  rcases List.mem_cons.mp hs with rfl | hs
  · exact spelt_bare (by decide) ⟨step, none⟩
  · have hfolded : s ∈ foldedNames ⟨step, none⟩ "k" 0 effects.length := hs
    exact (spelt_foldedNames s hfolded).mono (by decide)

/-- The names that an entry may define. -/
def stepNames (py : Python) (step : Nat) (op : StepOp) : List Ssa :=
  [.plain "p" (toString step) [], .plain "i" (toString step) []] ++
    ((op.guard.toList.flatMap (guardNames py step)) ++ callNames step op.effects)

theorem sublist_stepLines (step : Nat) (op : StepOp) :
    ((stepLines py step op).flatMap Line.dests).Sublist (stepNames py step op) := by
  obtain ⟨name, effects, guard⟩ := op
  unfold stepLines stepNames
  dsimp only
  cases guard with
  | none =>
    rw [Option.map_none]
    dsimp only
    rw [dests_lines, dests_append, dests_stepCalls]
    exact List.Sublist.refl _
  | some guard =>
    have hguard := @sublist_emitGuard py step guard
    rw [Option.map_some, Option.toList_some, List.flatMap_singleton]
    cases hemitted : emitGuard py step guard with
    | mk emitted condition =>
      rw [hemitted] at hguard
      cases condition with
      | some condition =>
        dsimp only
        rw [List.flatMap_append, dests_lines, dests_append, List.append_assoc,
          List.flatMap_singleton]
        show (_ ++ (dests emitted ++ dests (stepCalls step effects))).Sublist _
        rw [dests_stepCalls]
        exact (List.Sublist.refl _).append (hguard.append (List.Sublist.refl _))
      | none =>
        dsimp only
        rw [dests_lines, dests_append, dests_append, List.append_assoc, dests_stepCalls]
        exact (List.Sublist.refl _).append (hguard.append (List.Sublist.refl _))

/-- The words of what an entry defines. -/
def stepWords : List String :=
  ["p", "i", "z", "sr", "v", "cond", "and", "ucond", "or", "skip", "r", "k"]

theorem spelt_head :
    ∀ s ∈ [Ssa.plain "p" (toString step) [], Ssa.plain "i" (toString step) []],
      Spelt ["p", "i"] step [] s := by
  intro s hs
  rcases List.mem_cons.mp hs with rfl | hs
  · exact spelt_bare (by decide) ⟨step, none⟩
  · rw [List.mem_singleton.mp hs]
    exact spelt_bare (by decide) ⟨step, none⟩

theorem spelt_guards {guard : Option StepGuard} :
    ∀ s ∈ guard.toList.flatMap (guardNames py step), Spelt guardWords step [] s := by
  intro s hs
  obtain ⟨g, -, hs⟩ := List.mem_flatMap.mp hs
  exact spelt_guardNames s hs

theorem spelt_stepNames : ∀ s ∈ stepNames py step op, Spelt stepWords step [] s := by
  intro s hs
  rcases List.mem_append.mp hs with hs | hs
  · exact (spelt_head s hs).mono (by decide)
  rcases List.mem_append.mp hs with hs | hs
  · exact (spelt_guards s hs).mono (by decide)
  · exact (spelt_callNames s hs).mono (by decide)

theorem nodup_stepNames (step : Nat) (op : StepOp) : (stepNames py step op).Nodup := by
  have hguard : (op.guard.toList.flatMap (guardNames py step)).Nodup := by
    cases op.guard with
    | none => exact List.nodup_nil
    | some guard =>
      rw [Option.toList_some, List.flatMap_singleton]
      exact nodup_guardNames step guard
  have hrest := nodup_append_of_spelt hguard (nodup_callNames step op.effects) spelt_guards
    spelt_callNames (by decide)
  have hspelt : ∀ s ∈ op.guard.toList.flatMap (guardNames py step) ++ callNames step op.effects,
      Spelt (guardWords ++ ["r", "k"]) step [] s := by
    intro s hs
    rcases List.mem_append.mp hs with hs | hs
    · exact (spelt_guards s hs).mono (by decide)
    · exact (spelt_callNames s hs).mono (by decide)
  have hhead : [Ssa.plain "p" (toString step) [], Ssa.plain "i" (toString step) []].Nodup := by
    have hne : Ssa.plain "p" (toString step) [] ≠ Ssa.plain "i" (toString step) [] := by
      intro heq
      exact absurd (Ssa.plain.inj heq).1 (by decide)
    exact List.nodup_cons.mpr ⟨fun hmem => hne (List.mem_singleton.mp hmem), List.nodup_singleton _⟩
  exact nodup_append_of_spelt hhead hrest spelt_head hspelt (by decide)

/-- The names that the entries may define. -/
def streamNames (py : Python) : Nat → List StepOp → List Ssa
  | _, [] => []
  | step, op :: rest => stepNames py step op ++ streamNames py (step + 1) rest

theorem sublist_streamLines (ops : List StepOp) :
    ∀ step, ((streamLines py step ops).flatMap Line.dests).Sublist (streamNames py step ops) := by
  induction ops with
  | nil => exact fun step => List.nil_sublist _
  | cons op ops ih =>
    intro step
    unfold streamLines streamNames
    rw [List.flatMap_append]
    exact (sublist_stepLines step op).append (ih (step + 1))

theorem spelt_streamNames {ops : List StepOp} :
    ∀ {step : Nat}, ∀ s ∈ streamNames py step ops, ∃ k, step ≤ k ∧ Spelt stepWords k [] s := by
  induction ops with
  | nil => exact fun s hs => nomatch hs
  | cons op ops ih =>
    intro step s hs
    rcases List.mem_append.mp hs with hs | hs
    · exact ⟨step, Nat.le_refl step, spelt_stepNames s hs⟩
    · obtain ⟨k, hk, hspelt⟩ := ih s hs
      exact ⟨k, Nat.le_of_succ_le hk, hspelt⟩

theorem nodup_streamNames (ops : List StepOp) : ∀ step, (streamNames py step ops).Nodup := by
  induction ops with
  | nil => exact fun step => List.nodup_nil
  | cons op ops ih =>
    intro step
    unfold streamNames
    rw [List.nodup_append]
    refine ⟨nodup_stepNames step op, ih (step + 1), ?_⟩
    rintro s hs _ hs' rfl
    obtain ⟨word, -, rest, -, rfl⟩ := spelt_stepNames s hs
    obtain ⟨k, hk, word', -, rest', -, heq⟩ := spelt_streamNames _ hs'
    have hnumber := nat_toString_inj (Ssa.plain.inj heq).2.1
    omega

/-! ### Names without underscores -/

theorem not_bare_termNames : .plain word number [] ∉ termNames idx n len := by
  intro hmem
  obtain ⟨entry, -, heq⟩ := List.mem_map.mp hmem
  have hsuffixes := (Ssa.plain.inj heq).2.2
  exact List.cons_ne_nil _ _ (List.append_eq_nil_iff.mp hsuffixes).2

theorem not_bare_foldedNames {idx : Index} {w : String} {n len : Nat} {word number : String} :
    .plain word number [] ∉ foldedNames idx w n len := by
  intro hmem
  obtain ⟨k, -, heq⟩ := List.mem_map.mp hmem
  have hsuffixes := (Ssa.plain.inj heq).2.2
  exact List.cons_ne_nil _ _ (List.append_eq_nil_iff.mp hsuffixes).2

theorem not_bare_altNames : .plain word number [] ∉ altNames py step n texts := by
  intro hmem
  obtain ⟨k, -, w, -, rest, -, heq⟩ := mem_altNames _ hmem
  cases (Ssa.plain.inj heq).2.2

/-- The only name of a comparison without underscores is that of its truth value. -/
theorem bare_emitTerm {pred : Predicate} {name : Ssa} :
    .plain word number [] ∈ dests (emitTerm idx n pred name t) ↔ name = .plain word number [] := by
  have hside (slot : String) (v : Front.Value) :
      .plain word number [] ∉ dests (emitOperand idx slot v).1 := by
    intro hmem
    have hsuffix (w : String) : Ssa.plain word number [] ≠ idx.name w [slot] := by
      intro heq
      have hsuffixes := (Ssa.plain.inj heq).2.2
      exact List.cons_ne_nil _ _ (List.append_eq_nil_iff.mp hsuffixes.symm).2
    have hthree := (sublist_emitOperand idx slot v).subset hmem
    rcases List.mem_cons.mp hthree with heq | hthree
    · exact hsuffix _ heq
    rcases List.mem_cons.mp hthree with heq | hthree
    · exact hsuffix _ heq
    · exact hsuffix _ (List.mem_singleton.mp hthree)
  rw [dests_emitTerm, List.mem_append, List.mem_append, List.mem_singleton]
  constructor
  · rintro (hl | hr | heq)
    · exact absurd hl (hside _ _)
    · exact absurd hr (hside _ _)
    · exact heq.symm
  · exact fun heq => .inr (.inr heq.symm)

/-- The names of a condition without underscores. -/
theorem bare_emitCondition {cond : Option Front.Condition} {step : Nat} {negate : Bool}
    {word : String} :
    .plain word (toString step) [] ∈ dests (emitCondition cond ⟨step, none⟩ negate).1 ↔
      (negate = true ∧ comparisons cond ≠ [] ∧ word = "ucond") ∨
        (negate = false ∧ (∃ t, comparisons cond = [t]) ∧ word = "cond") := by
  have hname (w : String) : (⟨step, none⟩ : Index).name w [] = .plain word (toString step) [] ↔
      word = w :=
    ⟨fun heq => (Ssa.plain.inj heq).1.symm, fun heq => by rw [heq]; rfl⟩
  match h : comparisons cond with
  | [] =>
    rw [emitCondition_of_none h]
    refine iff_of_false List.not_mem_nil ?_
    rintro (⟨-, hne, -⟩ | ⟨-, ⟨t, ht⟩, -⟩)
    · exact hne rfl
    · cases ht
  | [t] =>
    rw [emitCondition_of_one h]
    dsimp only
    rw [bare_emitTerm, hname]
    cases negate with
    | true =>
      constructor
      · exact fun hword => .inl ⟨rfl, List.cons_ne_nil _ _, hword⟩
      · rintro (⟨-, -, hword⟩ | ⟨hfalse, -⟩)
        · exact hword
        · cases hfalse
    | false =>
      constructor
      · exact fun hword => .inr ⟨rfl, ⟨t, rfl⟩, hword⟩
      · rintro (⟨htrue, -⟩ | ⟨-, -, hword⟩)
        · cases htrue
        · exact hword
  | t :: t' :: rest =>
    have hterms : .plain word (toString step) [] ∉
        dests (emitTerms ⟨step, none⟩ 0 (t :: t' :: rest)).1 := fun hmem =>
      not_bare_termNames ((sublist_emitTerms _ _ 0).subset hmem)
    have hfolded (folded : Ssa) (names : List Ssa) : .plain word (toString step) [] ∉
        dests (foldNames "and" .andi ⟨step, none⟩ 1 folded names).1 := by
      rw [dests_foldNames]
      exact not_bare_foldedNames
    rw [emitCondition_of_two h]
    dsimp only
    cases negate with
    | true =>
      rw [if_pos rfl]
      dsimp only
      rw [dests_append, dests_append, List.mem_append, List.mem_append]
      constructor
      · rintro ((hmem | hmem) | hmem)
        · exact absurd hmem hterms
        · exact absurd hmem (hfolded _ _)
        · have heq := List.mem_singleton.mp hmem
          exact .inl ⟨rfl, List.cons_ne_nil _ _, (hname "ucond").mp heq.symm⟩
      · rintro (⟨-, -, hword⟩ | ⟨hfalse, -⟩)
        · exact .inr (List.mem_singleton.mpr ((hname "ucond").mpr hword).symm)
        · cases hfalse
    | false =>
      rw [if_neg Bool.false_ne_true]
      dsimp only
      rw [dests_append, List.mem_append]
      refine iff_of_false ?_ ?_
      · rintro (hmem | hmem)
        · exact hterms hmem
        · exact hfolded _ _ hmem
      · rintro (⟨htrue, -⟩ | ⟨-, ⟨t'', ht⟩, -⟩)
        · cases htrue
        · cases ht

/-- A condition has a truth value in mode B iff it has a comparison. -/
theorem emitCondition_eq_none {negate : Bool} :
    (emitCondition cond idx negate).2 = none ↔ comparisons cond = [] := by
  match h : comparisons cond with
  | [] =>
    rw [emitCondition_of_none h]
    exact iff_of_true rfl rfl
  | [t] =>
    rw [emitCondition_of_one h]
    exact iff_of_false (fun heq => nomatch heq) (List.cons_ne_nil _ _)
  | t :: t' :: rest =>
    rw [emitCondition_of_two h]
    refine iff_of_false ?_ (List.cons_ne_nil _ _)
    cases negate with
    | true => exact fun heq => nomatch heq
    | false => exact fun heq => nomatch heq

/-- The alternatives have truth values iff all of them have. -/
theorem emitAlternatives_eq_none {step : Nat} {texts : List String} :
    ∀ {n : Nat}, (emitAlternatives py step n texts).2 = none ↔
      (texts.any fun text => (comparisons (parsed py text)).isEmpty) = true := by
  induction texts with
  | nil =>
    intro n
    exact iff_of_false (fun h => nomatch h) Bool.false_ne_true
  | cons text rest ih =>
    intro n
    rw [List.any_cons, Bool.or_eq_true, List.isEmpty_iff]
    unfold emitAlternatives
    dsimp only
    cases hname : (emitCondition (parsed py text) ⟨step, some n⟩ false).2 with
    | none =>
      exact iff_of_true rfl (.inl (emitCondition_eq_none.mp hname))
    | some name =>
      have hsome : comparisons (parsed py text) ≠ [] := by
        intro hnil
        rw [emitCondition_eq_none.mpr hnil] at hname
        cases hname
      dsimp only
      rw [Option.map_eq_none_iff, ih]
      exact ⟨.inr, fun h => h.resolve_left hsome⟩

theorem emitAltCondition_eq_none {step : Nat} {text : String} {texts : List String} :
    (emitAltCondition py (text :: texts) step).2 = none ↔
      ((text :: texts).any fun text => (comparisons (parsed py text)).isEmpty) = true := by
  rw [← @emitAlternatives_eq_none py step (text :: texts) 0]
  unfold emitAltCondition
  dsimp only
  cases hnames : (emitAlternatives py step 0 (text :: texts)).2 with
  | none => exact iff_of_true rfl rfl
  | some names =>
    have hlength := length_of_emitAlternatives hnames
    cases names with
    | nil => cases hlength
    | cons first rest => exact iff_of_false (fun h => nomatch h) (fun h => nomatch h)

theorem not_bare_emitAltCondition :
    .plain word number [] ∉ dests (emitAltCondition py texts step).1 := by
  intro hmem
  rcases List.mem_append.mp ((sublist_emitAltCondition step texts).subset hmem) with h | h
  · exact not_bare_altNames h
  · exact not_bare_foldedNames h

/-- The names of a guard without underscores. -/
theorem bare_emitGuard :
    .plain word (toString step) [] ∈ dests (emitGuard py step guard).1 ↔
      word ∈ plainWords py guard := by
  have hskip (is : List Instr) :
      .plain word (toString step) [] ∈ dests (is ++ [⟨some (.plain "skip" (toString step) []),
        .cmpi .eq, [.plain "skip" "" [], .plain "c" "0" []]⟩]) ↔
      .plain word (toString step) [] ∈ dests is ∨ word = "skip" := by
    rw [dests_append, List.mem_append]
    refine or_congr Iff.rfl ?_
    show _ ∈ [Ssa.plain "skip" (toString step) []] ↔ _
    rw [List.mem_singleton]
    exact ⟨fun heq => (Ssa.plain.inj heq).1, fun heq => by rw [heq]⟩
  cases guard with
  | «until» condition =>
    show _ ∈ dests (emitCondition _ ⟨step, none⟩ true).1 ↔
      word ∈ if (comparisons (parsed py condition)).isEmpty then [] else ["ucond"]
    rw [bare_emitCondition]
    cases comparisons (parsed py condition) with
    | nil =>
      refine iff_of_false ?_ List.not_mem_nil
      rintro (⟨-, hne, -⟩ | ⟨hfalse, -⟩)
      · exact hne rfl
      · cases hfalse
    | cons t rest =>
      show _ ↔ word ∈ ["ucond"]
      rw [List.mem_singleton]
      constructor
      · rintro (⟨-, -, hword⟩ | ⟨hfalse, -⟩)
        · exact hword
        · cases hfalse
      · exact fun hword => .inl ⟨rfl, List.cons_ne_nil _ _, hword⟩
  | «when» condition alternatives =>
    cases alternatives with
    | nil =>
      unfold emitGuard plainWords
      dsimp only
      rw [if_pos (show ([] : List String).isEmpty = true from rfl)]
      have hbare := @bare_emitCondition (parsed py condition) step false word
      match h : comparisons (parsed py condition) with
      | [] =>
        rw [emitCondition_of_none h]
        dsimp only
        rw [hskip, List.mem_singleton]
        exact ⟨fun hmem => hmem.resolve_left List.not_mem_nil, .inr⟩
      | [t] =>
        rw [h] at hbare
        rw [emitCondition_of_one h] at hbare ⊢
        dsimp only at hbare ⊢
        rw [hbare, List.mem_singleton]
        constructor
        · rintro (⟨htrue, -⟩ | ⟨-, -, hword⟩)
          · cases htrue
          · exact hword
        · exact fun hword => .inr ⟨rfl, ⟨t, rfl⟩, hword⟩
      | t :: t' :: rest =>
        rw [h] at hbare
        have hsome : (emitCondition (parsed py condition) ⟨step, none⟩ false).2 ≠ none := by
          rw [Ne, emitCondition_eq_none, h]
          exact List.cons_ne_nil _ _
        cases hname : (emitCondition (parsed py condition) ⟨step, none⟩ false).2 with
        | none => exact absurd hname hsome
        | some name =>
          dsimp only
          rw [hbare]
          refine iff_of_false ?_ List.not_mem_nil
          rintro (⟨htrue, -⟩ | ⟨-, ⟨t'', ht⟩, -⟩)
          · cases htrue
          · cases ht
    | cons text rest =>
      have hnone := @emitAltCondition_eq_none py step condition (text :: rest)
      unfold emitGuard plainWords
      dsimp only
      rw [if_neg (show ¬(text :: rest).isEmpty = true from Bool.false_ne_true)]
      cases hname : (emitAltCondition py (condition :: text :: rest) step).2 with
      | none =>
        rw [if_pos (hnone.mp hname)]
        dsimp only
        rw [hskip, List.mem_singleton]
        exact ⟨fun hmem => hmem.resolve_left not_bare_emitAltCondition, .inr⟩
      | some name =>
        have hall := mt hnone.mpr (by rw [hname]; exact fun h => nomatch h)
        rw [if_neg hall]
        exact iff_of_false not_bare_emitAltCondition List.not_mem_nil

/-- What the lines of an entry define. -/
theorem dests_stepLines (step : Nat) (op : StepOp) :
    ((stepLines py step op).flatMap Line.dests) =
      [.plain "p" (toString step) [], .plain "i" (toString step) []] ++
        ((op.guard.toList.flatMap fun guard => dests (emitGuard py step guard).1) ++
          callNames step op.effects) := by
  obtain ⟨name, effects, guard⟩ := op
  unfold stepLines
  dsimp only
  cases guard with
  | none =>
    rw [Option.map_none]
    dsimp only
    rw [dests_lines, dests_append, dests_stepCalls]
    rfl
  | some guard =>
    rw [Option.map_some, Option.toList_some, List.flatMap_singleton]
    cases hemitted : emitGuard py step guard with
    | mk emitted condition =>
      cases condition with
      | some condition =>
        dsimp only
        rw [List.flatMap_append, dests_lines, dests_append, List.append_assoc,
          List.flatMap_singleton, ← dests_stepCalls]
        rfl
      | none =>
        dsimp only
        rw [dests_lines, dests_append, dests_append, List.append_assoc, dests_stepCalls]
        rfl

theorem bare_stepLines :
    .plain word (toString step) [] ∈ (stepLines py step op).flatMap Line.dests ↔
      word ∈ ["p", "i", "r"] ++ op.guard.toList.flatMap (plainWords py) := by
  have hcalls : .plain word (toString step) [] ∈ callNames step op.effects ↔ word = "r" := by
    unfold callNames
    rw [List.mem_cons]
    constructor
    · rintro (heq | hmem)
      · exact (Ssa.plain.inj heq).1
      · exact absurd hmem (@not_bare_foldedNames ⟨step, none⟩ "k" 0 op.effects.length _ _)
    · exact fun heq => .inl (by rw [heq])
  have hhead (w : String) : Ssa.plain word (toString step) [] = .plain w (toString step) [] ↔
      word = w :=
    ⟨fun heq => (Ssa.plain.inj heq).1, fun heq => by rw [heq]⟩
  have hguard : (.plain word (toString step) [] ∈
      op.guard.toList.flatMap fun guard => dests (emitGuard py step guard).1) ↔
        word ∈ op.guard.toList.flatMap (plainWords py) := by
    rw [List.mem_flatMap, List.mem_flatMap]
    exact exists_congr fun guard => and_congr_right fun _ => bare_emitGuard
  rw [dests_stepLines, List.mem_append, List.mem_append, hcalls, hguard, List.mem_append]
  simp only [List.mem_cons, List.not_mem_nil, or_false, hhead]
  constructor
  · rintro ((hp | hi) | hwords | hr)
    · exact .inl (.inl hp)
    · exact .inl (.inr (.inl hi))
    · exact .inr hwords
    · exact .inl (.inr (.inr hr))
  · rintro ((hp | hi | hr) | hwords)
    · exact .inl (.inl hp)
    · exact .inl (.inr hi)
    · exact .inr (.inr hr)
    · exact .inr (.inl hwords)

end Lnpl.Backend
