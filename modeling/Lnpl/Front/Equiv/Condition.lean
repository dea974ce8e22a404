import Lnpl.Front.Condition
import Lnpl.Front.Equiv.Lexer
import Lnpl.Lib.Results

/-!
# Conditions and values are read back as they are printed

What the parsers accept is `Spelled`: its operands are words that are read back from their printed
form.  A spelled condition or right-hand side is printed as the row of its words, and this row is
parsed to it (`roundTrip`).
-/

namespace Lnpl.Front

open Lib (bind_eq_ok map_eq_ok pure_eq_ok forall_of_mapM mapM_map_eq_ok)

/-! ### The words of the grammar -/

@[simp]
theorem ArithOp.ofWord?_word (op : ArithOp) : ArithOp.ofWord? op.word = some op := by
  cases op <;> rfl

@[simp]
theorem Comparator.ofWord?_word (op : Comparator) : Comparator.ofWord? op.word = some op := by
  cases op <;> rfl

@[simp]
theorem AggFunc.ofWord?_word (f : AggFunc) : AggFunc.ofWord? f.word = some f := by
  cases f <;> rfl

@[simp]
theorem PresenceKind.ofWord?_word (kind : PresenceKind) :
    PresenceKind.ofWord? kind.word = some kind := by
  cases kind <;> rfl

@[simp]
theorem NumericKind.ofWord?_word (kind : NumericKind) :
    NumericKind.ofWord? kind.word = some kind := by
  cases kind <;> rfl

@[simp]
theorem PresenceKind.ofWord?_numeric (kind : NumericKind) :
    PresenceKind.ofWord? kind.word = none := by
  cases kind <;> rfl

variable {w tok : String} {text : Option String} {o : Operand} {v : Value} {ws rest : List String}
  {t : Term} {cond : Condition} {args : List Ref} {rhs : AssignRHS}

theorem Comparator.word_of_ofWord? {op : Comparator} (h : Comparator.ofWord? w = some op) :
    op.word = w := by
  simpa using List.find?_some h

theorem AggFunc.word_of_ofWord? {f : AggFunc} (h : AggFunc.ofWord? w = some f) : f.word = w := by
  simpa using List.find?_some h

/-- An arithmetic operator is no comparator. -/
@[simp]
theorem ArithOp.not_comparator (op : ArithOp) : Comparator.ofWord? op.word = none := by
  cases op <;> rfl

/-- A literal text is a word if it is seen to be one. -/
theorem word_of_all (h : (!w.toList.isEmpty && w.toList.all fun ch => !isSpace ch) = true) :
    Word w := by
  simp only [Bool.and_eq_true, List.all_eq_true, Bool.not_eq_true', List.isEmpty_eq_false_iff] at h
  exact ⟨h.1, h.2⟩

theorem ArithOp.word_word (op : ArithOp) : Word op.word := by
  cases op <;> exact word_of_all (by decide)

theorem Comparator.word_word (op : Comparator) : Word op.word := by
  cases op <;> exact word_of_all (by decide)

theorem AggFunc.word_word (f : AggFunc) : Word f.word := by
  cases f <;> exact word_of_all (by decide)

theorem PresenceKind.word_word (kind : PresenceKind) : Word kind.word := by
  cases kind <;> exact word_of_all (by decide)

theorem NumericKind.word_word (kind : NumericKind) : Word kind.word := by
  cases kind <;> exact word_of_all (by decide)

variable (py : Python)

/-! ### First characters -/

/-- The text starts with an ASCII digit. -/
def StartsDigit (w : String) : Prop := ∃ ch chars, w.toList = ch :: chars ∧ ch.isDigit = true

/-- The text starts with a lower-case letter. -/
def StartsLower (w : String) : Prop := ∃ ch chars, w.toList = ch :: chars ∧ py.isLower ch = true

/-- A reference starts with a lower-case letter. -/
theorem startsLower_of_isReferenceName {name : String} (h : isReferenceName py name = true) :
    StartsLower py name := by
  unfold isReferenceName at h
  split at h
  · exact absurd h (by simp)
  · dsimp only at h
    split at h
    · exact absurd h (by simp)
    · rw [List.splitOn_eq_splitOnP] at h
      cases hname : name.toList with
      | nil => simp [hname, List.splitOnP_nil, isCamelName] at h
      | cons ch chars =>
        obtain ⟨first, rest, hsplit⟩ :=
          List.exists_cons_of_ne_nil (List.splitOnP_ne_nil (· == '.') chars)
        rw [hname, List.splitOnP_cons_eq_if_modifyHead, hsplit] at h
        split at h
        · simp [isCamelName] at h
        · simp only [List.modifyHead_cons, List.all_cons, isCamelName, Bool.and_eq_true] at h
          exact ⟨ch, chars, hname, h.1.1⟩

/-- Neither a number nor a reference is a comparator. -/
theorem not_comparator (h : StartsDigit w ∨ StartsLower py w) : Comparator.ofWord? w = none := by
  cases hop : Comparator.ofWord? w with
  | none => rfl
  | some op =>
    have hword := Comparator.word_of_ofWord? hop
    rcases h with ⟨ch, chars, hw, hch⟩ | ⟨ch, chars, hw, hch⟩
    · rw [← hword] at hw
      cases op <;> simp [Comparator.word] at hw <;> simp [← hw.1] at hch
    · rw [← hword] at hw
      cases op <;> simp [Comparator.word] at hw <;>
        simp [← hw.1, py.isLower_ascii] at hch

/-! ### Operands -/

/-- An operand that is read back from its printed form. -/
structure Operand.Spelled (o : Operand) : Prop where
  word : Word o.toText
  parse : ∀ text, parseOperand py o.toText text = .ok o
  start : StartsDigit o.toText ∨ StartsLower py o.toText
  ne_and : o.toText ≠ "and"

/-- What a word is accepted as. -/
theorem parseOperand_eq_ok :
    parseOperand py tok text = .ok o ↔
      (∃ v, py.isdigit tok = true ∧ py.int tok.toList = .ok v ∧ v ≤ int64Max ∧
        o = .lit ⟨v, false⟩) ∨
      (∃ d, py.isdigit tok = false ∧ py.durationMsOrNone tok = .ok (some d) ∧
        o = .lit ⟨d, true⟩) ∨
      (py.isdigit tok = false ∧ py.durationMsOrNone tok = .ok none ∧
        isReferenceName py tok = true ∧ o = .ref ⟨tok⟩) := by
  unfold parseOperand
  cases hdigit : py.isdigit tok with
  | true =>
    cases hint : py.int tok.toList with
    | error e => simp
    | ok v =>
      by_cases hv : int64Max < v
      · simp [hv, Nat.not_le_of_lt hv]
      · simpa [hv, Nat.le_of_not_lt hv] using eq_comm
  | false =>
    cases hduration : py.durationMsOrNone tok with
    | error e => cases e <;> simp
    | ok d =>
      cases d with
      | some d => simpa using eq_comm
      | none =>
        cases hname : isReferenceName py tok with
        | true => simpa using eq_comm
        | false => simp

theorem toList_toString (n : Nat) : (toString n).toList = Nat.toDigits 10 n := by
  simp

/-- A printed number starts with a digit. -/
theorem startsDigit_append (n : Nat) (unit : String) : StartsDigit (toString n ++ unit) := by
  obtain ⟨ch, chars, hdigits⟩ := List.exists_cons_of_ne_nil (Nat.toDigits_ne_nil (n := n) (b := 10))
  refine ⟨ch, chars ++ unit.toList, ?_, ?_⟩
  · rw [String.toList_append, toList_toString, hdigits, List.cons_append]
  · apply isDigit_of_mem_toDigits (n := n)
    rw [hdigits]
    exact List.mem_cons_self

theorem ne_of_startsDigit {v : String} (h : StartsDigit w) (hv : ∀ ch ∈ v.toList.head?,
    ch.isDigit = false) : w ≠ v := by
  rintro rfl
  obtain ⟨ch, chars, hw, hch⟩ := h
  have := hv ch (by simp [hw])
  simp_all

variable {unit word token template target : String} {terms : List Term} {f : FormatCall}

/-- A printed number followed by a unit is a word. -/
theorem word_number (hunit : ∀ ch ∈ unit.toList, isSpace ch = false) (n : Nat) :
    Word (toString n ++ unit) := by
  constructor
  · simp [Nat.toDigits_ne_nil]
  · intro ch hch
    rw [String.toList_append, toList_toString, List.mem_append] at hch
    rcases hch with hch | hch
    · exact isSpace_of_isDigit (isDigit_of_mem_toDigits hch)
    · exact hunit ch hch

theorem spelled_number {v : Nat} (hv : v ≤ int64Max) :
    Operand.Spelled py (.lit ⟨v, false⟩) := by
  have htext : Operand.toText (.lit ⟨v, false⟩) = toString v ++ "" := by
    simp [Operand.toText]
  have hdigit := py.isdigit_toDigits v
  have hint := py.int_toDigits hv
  constructor
  · rw [htext]
    exact word_number (by simp) v
  · intro text
    rw [parseOperand_eq_ok]
    refine .inl ⟨v, ?_, ?_, hv, rfl⟩
    · rw [Operand.toText, if_neg (by simp), Nat.toString_eq_ofList_toDigits]
      exact hdigit
    · simpa [Operand.toText] using hint
  · rw [htext]
    exact .inl (startsDigit_append v "")
  · rw [htext]
    exact ne_of_startsDigit (startsDigit_append v "") (by simp)

/-- A duration is printed as a number of one of the units. -/
theorem durationToString_eq (v : Nat) : ∃ n unit mult, (unit, mult) ∈ durationScan ∧
    n * mult = v ∧ durationToString v = toString n ++ unit := by
  unfold durationToString
  split
  · next unit mult hfind =>
    have hmem := List.mem_of_find?_eq_some hfind
    have hexact := List.find?_some hfind
    simp only [decide_eq_true_eq] at hexact
    refine ⟨v / mult, unit, mult, ?_, Nat.div_mul_cancel (Nat.dvd_of_mod_eq_zero hexact.2), ?_⟩
    · simp only [durationRender, List.mem_cons, List.not_mem_nil, or_false] at hmem
      simp only [durationScan, List.mem_cons, List.not_mem_nil, or_false]
      tauto
    · simp [toString]
  · exact ⟨v, "ms", 1, by simp [durationScan], Nat.mul_one v, by simp [toString]⟩

/-- The units are ASCII letters. -/
theorem letters_of_mem_durationScan {mult : Nat} (h : (unit, mult) ∈ durationScan) :
    unit.toList ≠ [] ∧
      ∀ ch ∈ unit.toList, ch.toNat < 128 ∧ ch.isDigit = false ∧ isSpace ch = false := by
  simp only [durationScan, List.mem_cons, Prod.mk.injEq, List.not_mem_nil, or_false] at h
  rcases h with ⟨rfl, -⟩ | ⟨rfl, -⟩ | ⟨rfl, -⟩ | ⟨rfl, -⟩ | ⟨rfl, -⟩ <;> simp [isSpace]

theorem spelled_duration {v : Nat} (hv : v ≤ int64Max) :
    Operand.Spelled py (.lit ⟨v, true⟩) := by
  obtain ⟨n, unit, mult, hunit, hvalue, hprint⟩ := durationToString_eq v
  have htext : Operand.toText (.lit ⟨v, true⟩) = toString n ++ unit := hprint
  obtain ⟨hne, hletters⟩ := letters_of_mem_durationScan hunit
  have hread := py.durationMsOrNone_print (n := n) hunit (by omega)
  constructor
  · rw [htext]
    exact word_number (fun ch hch => (hletters ch hch).2.2) n
  · intro text
    rw [parseOperand_eq_ok, htext]
    refine .inr (.inl ⟨v, ?_, by rw [hread, hvalue], rfl⟩)
    obtain ⟨ch, chars, hchars⟩ := List.exists_cons_of_ne_nil hne
    have hch := hletters ch (by simp [hchars])
    have hdigit : py.isDigit ch = false := by rw [py.isDigit_ascii ch hch.1, hch.2.1]
    simp [Python.isdigit, hchars, hdigit]
  · rw [htext]
    exact .inl (startsDigit_append n unit)
  · rw [htext]
    exact ne_of_startsDigit (startsDigit_append n unit) (by simp)

/-- What a word is accepted as is read back. -/
theorem spelled_of_parseOperand (hword : Word tok) (h : parseOperand py tok text = .ok o) :
    o.Spelled py := by
  have hcases := (parseOperand_eq_ok py).mp h
  rcases hcases with ⟨v, -, -, hv, rfl⟩ | ⟨d, -, hd, rfl⟩ | ⟨hdigit, hduration, hname, rfl⟩
  · exact spelled_number py hv
  · exact spelled_duration py (py.scanDuration_le hd)
  · constructor
    · exact hword
    · intro text'
      exact (parseOperand_eq_ok py).mpr (.inr (.inr ⟨hdigit, hduration, hname, rfl⟩))
    · exact .inr (startsLower_of_isReferenceName py hname)
    · rintro rfl
      simp [isReferenceName, reservedNames] at hname

/-- An operand is printed as it was written, or it is a number. -/
theorem toText_of_parseOperand (h : parseOperand py tok text = .ok o) :
    o.toText = tok ∨ StartsDigit o.toText := by
  rcases (parseOperand_eq_ok py).mp h with ⟨v, -, -, -, rfl⟩ | ⟨d, -, -, rfl⟩ | ⟨-, -, -, rfl⟩
  · have := startsDigit_append v ""
    right
    simpa [Operand.toText] using this
  · obtain ⟨n, unit, -, -, -, hprint⟩ := durationToString_eq d
    right
    rw [show Operand.toText (.lit ⟨d, true⟩) = _ from hprint]
    exact startsDigit_append n unit
  · exact .inl rfl

/-! ### Values -/

/-- The words that a value is printed as. -/
def Value.words : Value → List String
  | .operand o => [o.toText]
  | .arith a => [a.left.toText, a.op.word, a.right.toText]

/-- A value whose operands are read back. -/
def Value.Spelled (v : Value) : Prop := ∀ o ∈ v.operands, o.Spelled py

variable {py}

/-- A text of three words and two spaces. -/
theorem tokens_three (a b c : String) :
    tokens s!"{a} {b} {c}" = tokens a ++ tokens b ++ tokens c := by
  rw [← tokens_append_space, ← tokens_append_space]
  rfl

theorem tokens_two (a b : String) : tokens s!"{a} {b}" = tokens a ++ tokens b := by
  rw [← tokens_append_space]
  rfl

theorem Value.Spelled.tokens_eq (h : v.Spelled py) : tokens v.toText = v.words := by
  cases v with
  | operand o => exact tokens_word (h o List.mem_cons_self).word
  | arith a =>
    have hleft := (h a.left (by simp [Value.operands])).word
    have hright := (h a.right (by simp [Value.operands])).word
    rw [Value.toText, tokens_three, tokens_word hleft, tokens_word a.op.word_word,
      tokens_word hright]
    rfl

/-- The words of a value are parsed to it. -/
theorem Value.Spelled.parse (h : v.Spelled py) (text : Option String) :
    parseValueTokens py v.words text = .ok v := by
  cases v with
  | operand o =>
    have ho := (h o List.mem_cons_self).parse text
    simp only [Value.words, parseValueTokens, ho]
    rfl
  | arith a =>
    have hleft := (h a.left (by simp [Value.operands])).parse text
    have hright := (h a.right (by simp [Value.operands])).parse text
    simp only [Value.words, parseValueTokens, ArithOp.ofWord?_word, hleft, hright]
    rfl

/-- A word of a value is an operand or an arithmetic operator. -/
theorem Value.mem_words (hw : w ∈ v.words) :
    (∃ o ∈ v.operands, w = o.toText) ∨ ∃ op : ArithOp, w = op.word := by
  cases v with
  | operand o =>
    rw [Value.words, List.mem_singleton] at hw
    exact .inl ⟨o, by simp [Value.operands], hw⟩
  | arith a =>
    simp only [Value.words, List.mem_cons, List.not_mem_nil, or_false] at hw
    rcases hw with rfl | rfl | rfl
    · exact .inl ⟨a.left, by simp [Value.operands], rfl⟩
    · exact .inr ⟨a.op, rfl⟩
    · exact .inl ⟨a.right, by simp [Value.operands], rfl⟩

theorem Value.Spelled.not_comparator (h : v.Spelled py) (hw : w ∈ v.words) :
    Comparator.ofWord? w = none := by
  rcases Value.mem_words hw with ⟨o, ho, rfl⟩ | ⟨op, rfl⟩
  · exact Front.not_comparator py (h o ho).start
  · exact op.not_comparator

theorem Value.Spelled.not_and (h : v.Spelled py) : "and" ∉ v.words := by
  intro hw
  rcases Value.mem_words hw with ⟨o, ho, hand⟩ | ⟨op, hand⟩
  · exact (h o ho).ne_and hand.symm
  · cases op <;> simp [ArithOp.word] at hand

/-- The value that words are accepted as is spelled. -/
theorem spelled_of_parseValueTokens (hws : ∀ w ∈ ws, Word w)
    (h : parseValueTokens py ws text = .ok v) : v.Spelled py := by
  unfold parseValueTokens at h
  split at h
  · exact absurd h (by simp)
  · next token =>
    obtain ⟨o, ho, h⟩ := bind_eq_ok.mp h
    obtain rfl := pure_eq_ok.mp h
    intro o' ho'
    rw [Value.operands, List.mem_singleton] at ho'
    subst ho'
    exact spelled_of_parseOperand py (hws token (by simp)) ho
  · next left op right =>
    split at h
    · exact absurd h (by simp)
    · obtain ⟨l, hl, h⟩ := bind_eq_ok.mp h
      obtain ⟨r, hr, h⟩ := bind_eq_ok.mp h
      obtain rfl := pure_eq_ok.mp h
      intro o ho
      simp only [Value.operands, List.mem_cons, List.not_mem_nil, or_false] at ho
      rcases ho with rfl | rfl
      · exact spelled_of_parseOperand py (hws left (by simp)) hl
      · exact spelled_of_parseOperand py (hws right (by simp)) hr
  · exact absurd h (by simp)

/-! ### Terms -/

/-- A comparison of spelled values, or a check of a reference. -/
def Term.Spelled (py : Python) : Term → Prop
  | .comparison t => t.left.Spelled py ∧ t.right.Spelled py
  | .numericPredicate t => isReferenceName py t.field = true ∧ Word t.field

/-- The words that a term is printed as. -/
def Term.words : Term → List String
  | .comparison t => t.left.words ++ t.op.word :: t.right.words
  | .numericPredicate t => [t.field, t.kind.word]

theorem Term.Spelled.tokens_eq (h : t.Spelled py) : tokens t.toText = t.words := by
  cases t with
  | comparison t =>
    rw [Term.toText, tokens_three, h.1.tokens_eq, h.2.tokens_eq, tokens_word t.op.word_word,
      List.append_assoc]
    rfl
  | numericPredicate t =>
    rw [Term.toText, tokens_two, tokens_word h.2, tokens_word t.kind.word_word]
    rfl

/-- The one comparator among words without one is found where it stands. -/
theorem opPositions_append {ls rs : List String} (op : Comparator)
    (hl : ∀ w ∈ ls, Comparator.ofWord? w = none) (hr : ∀ w ∈ rs, Comparator.ofWord? w = none) :
    opPositions (ls ++ op.word :: rs) = [(ls.length, op)] := by
  have hnone (ws : List String) (n : Nat) (hws : ∀ w ∈ ws, Comparator.ofWord? w = none) :
      (ws.zipIdx n).filterMap (fun entry =>
        (Comparator.ofWord? entry.1).map fun op => (entry.2, op)) = [] := by
    rw [List.filterMap_eq_nil_iff]
    intro entry hentry
    rw [hws entry.1 (List.fst_mem_of_mem_zipIdx hentry), Option.map_none]
  rw [opPositions, List.zipIdx_append, List.filterMap_append, hnone ls 0 hl, List.zipIdx_cons,
    List.filterMap_cons, hnone rs _ hr]
  simp

/-- The words of a comparison are parsed to it. -/
theorem parseComparison_words {t : Comparison} (hl : t.left.Spelled py) (hr : t.right.Spelled py)
    (text : Option String) :
    parseComparison py (t.left.words ++ t.op.word :: t.right.words) text = .ok t := by
  have hop := opPositions_append t.op (fun w (hw : w ∈ t.left.words) => hl.not_comparator hw)
    (fun w (hw : w ∈ t.right.words) => hr.not_comparator hw)
  have hdrop : (t.left.words ++ t.op.word :: t.right.words).drop (t.left.words.length + 1) =
      t.right.words := by
    rw [List.append_cons]
    exact List.drop_left' (by simp)
  simp only [parseComparison, hop, List.take_left, hdrop, hl.parse, hr.parse]
  rfl

/-- Three or more words are a comparison, or nothing. -/
theorem parseTerm_of_three (a b c : String) (ws : List String) (text : Option String)
    (allow : Bool) : parseTerm py (a :: b :: c :: ws) text allow =
      (fun t => .term (.comparison t)) <$> parseComparison py (a :: b :: c :: ws) text := by
  simp only [parseTerm]
  rfl

/-- The words of a term are parsed to it, whether or not a presence check may stand there. -/
theorem Term.Spelled.parse (h : t.Spelled py) (text : Option String) (allow : Bool) :
    parseTerm py t.words text allow = .ok (.term t) := by
  cases t with
  | comparison t =>
    have hwords := parseComparison_words h.1 h.2 text
    have hthree : ∃ a b c ws, t.left.words ++ t.op.word :: t.right.words = a :: b :: c :: ws := by
      cases t.left <;> cases t.right <;> simp [Value.words]
    obtain ⟨a, b, c, ws, heq⟩ := hthree
    rw [Term.words, heq, parseTerm_of_three, ← heq, hwords]
    rfl
  | numericPredicate t =>
    simp [Term.words, parseTerm, h.1]

theorem Term.Spelled.not_and (h : t.Spelled py) : "and" ∉ t.words := by
  cases t with
  | comparison t =>
    have hop : "and" ≠ t.op.word := by cases t.op <;> simp [Comparator.word]
    simp [Term.words, h.1.not_and, h.2.not_and, hop]
  | numericPredicate t =>
    have hkind : "and" ≠ t.kind.word := by cases t.kind <;> simp [NumericKind.word]
    have hfield : "and" ≠ t.field := by
      rintro hand
      have hname := h.1
      simp [← hand, isReferenceName, reservedNames] at hname
    simp [Term.words, hkind, hfield]

theorem Term.words_ne_nil (t : Term) : t.words ≠ [] := by
  cases t <;> simp [Term.words]

/-- The comparison that words are accepted as has spelled sides. -/
theorem spelled_of_parseComparison {t : Comparison} (hws : ∀ w ∈ ws, Word w)
    (h : parseComparison py ws text = .ok t) :
    t.left.Spelled py ∧ t.right.Spelled py := by
  unfold parseComparison at h
  split at h
  · split at h
    · exact absurd h (by simp)
    · exact absurd h (by simp)
  · obtain ⟨l, hl, h⟩ := bind_eq_ok.mp h
    obtain ⟨r, hr, h⟩ := bind_eq_ok.mp h
    obtain rfl := pure_eq_ok.mp h
    exact ⟨spelled_of_parseValueTokens (fun w hw => hws w (List.mem_of_mem_take hw)) hl,
      spelled_of_parseValueTokens (fun w hw => hws w (List.mem_of_mem_drop hw)) hr⟩
  · exact absurd h (by simp)

/-! ### Conditions -/

/-- A condition of spelled terms; the field of a presence check is a reference. -/
def Condition.Spelled (py : Python) : Condition → Prop
  | .presence p => isReferenceName py p.field = true ∧ Word p.field
  | .term t => t.Spelled py
  | .and a => ∀ t ∈ a.terms, t.Spelled py

/-- What one group of words is accepted as is spelled, and inside `and` it is a term. -/
theorem spelled_of_parseTerm {allow : Bool} (hws : ∀ w ∈ ws, Word w)
    (h : parseTerm py ws text allow = .ok cond) :
    cond.Spelled py := by
  unfold parseTerm at h
  split at h
  · exact absurd h (by simp)
  · exact absurd h (by simp)
  · next field word =>
    split at h
    · split at h
      · exact absurd h (by simp)
      · split at h
        · exact absurd h (by simp)
        · next hname =>
          obtain rfl := Except.ok.inj h
          exact ⟨by simpa using hname, hws field (by simp)⟩
    · split at h
      · exact absurd h (by simp)
      · next hname =>
        obtain rfl := Except.ok.inj h
        exact ⟨by simpa using hname, hws field (by simp)⟩
    · obtain ⟨t, ht, h⟩ := bind_eq_ok.mp h
      obtain rfl := pure_eq_ok.mp h
      exact spelled_of_parseComparison hws ht
  · obtain ⟨t, ht, h⟩ := bind_eq_ok.mp h
    obtain rfl := pure_eq_ok.mp h
    exact spelled_of_parseComparison hws ht

/-- The groups between the `and`s consist of words of the whole. -/
theorem word_of_mem_splitOnAnd {groups : List (List String)} (hws : ∀ w ∈ ws, Word w)
    (h : splitOnAnd py ws text = .ok groups) : ∀ group ∈ groups, ∀ w ∈ group, Word w := by
  unfold splitOnAnd at h
  dsimp only at h
  split at h
  · exact absurd h (by simp)
  · obtain rfl := Except.ok.inj h
    intro group hgroup w hw
    rw [List.splitOn_eq_splitOnP] at hgroup
    exact hws w (Lib.mem_of_mem_splitOnP hgroup w hw).1

/-- Terms joined by `and` are split into the words of the terms. -/
theorem splitOnAnd_words (hne : terms ≠ []) (h : ∀ t ∈ terms, t.Spelled py) (text : Option String) :
    splitOnAnd py (["and"].intercalate (terms.map Term.words)) text =
      .ok (terms.map Term.words) := by
  have hsplit : (["and"].intercalate (terms.map Term.words)).splitOn "and" =
      terms.map Term.words := by
    apply List.splitOn_intercalate
    · intro ws hws
      obtain ⟨t, ht, rfl⟩ := List.mem_map.mp hws
      exact (h t ht).not_and
    · simpa using hne
  have hnil : [] ∉ terms.map Term.words := by
    simp [Term.words_ne_nil]
  rw [splitOnAnd, hsplit, if_neg hnil]

/-- Terms printed with `and` between them are split into the row of their words. -/
theorem tokens_intercalate_and (h : ∀ t ∈ terms, t.Spelled py) :
    tokens (" and ".intercalate (terms.map Term.toText)) =
      ["and"].intercalate (terms.map Term.words) := by
  have hand : Word "and" := word_of_all (by decide)
  induction terms with
  | nil => simp
  | cons t terms ih =>
    have ht := (h t List.mem_cons_self).tokens_eq
    have htail := ih fun t' ht' => h t' (List.mem_cons_of_mem t ht')
    cases terms with
    | nil => simpa using ht
    | cons t' terms =>
      simp only [List.map_cons, String.intercalate_cons_cons, List.intercalate_cons_cons] at htail ⊢
      rw [← ht, ← htail, ← tokens_word hand, ← tokens_append_space, ← tokens_append_space]
      congr 1
      simp [String.append_assoc]

/-- What `and` is built of spelled conditions is spelled. -/
theorem spelled_of_andOf {conds : List Condition} (hconds : ∀ c ∈ conds, c.Spelled py)
    (h : andOf conds = .ok cond) : cond.Spelled py := by
  unfold andOf at h
  split at h
  · exact absurd h (by simp)
  · next terms hterms =>
    split at h
    · obtain rfl := Except.ok.inj h
      refine forall_of_mapM hterms fun c hc t ht => ?_
      cases c with
      | term t' =>
        obtain rfl := Except.ok.inj ht
        exact hconds _ hc
      | presence p => exact absurd ht (by simp [Condition.asTerm])
      | and a => exact absurd ht (by simp [Condition.asTerm])
    · exact absurd h (by simp)

/-- The condition that a text is accepted as is spelled. -/
theorem spelled_of_parseCondition (h : parseCondition py text = .ok (some cond)) :
    cond.Spelled py := by
  have hws : ∀ w ∈ tokens (text.getD ""), Word w := fun w hw => word_of_mem_tokens hw
  unfold parseCondition at h
  split at h
  · exact absurd h (by simp)
  · split at h
    · exact absurd h (by simp)
    · next group hsplit =>
      obtain ⟨c, hc, h⟩ := bind_eq_ok.mp h
      obtain rfl := Option.some.inj (pure_eq_ok.mp h)
      exact spelled_of_parseTerm (word_of_mem_splitOnAnd hws hsplit group (by simp)) hc
    · next groups _ hsplit =>
      obtain ⟨conds, hconds, h⟩ := bind_eq_ok.mp h
      obtain ⟨c, hc, h⟩ := bind_eq_ok.mp h
      obtain rfl := Option.some.inj (pure_eq_ok.mp h)
      apply spelled_of_andOf _ hc
      refine forall_of_mapM hconds fun group hgroup c hparse => ?_
      exact spelled_of_parseTerm (word_of_mem_splitOnAnd hws hsplit group hgroup) hparse

/-- A text of one group of words is parsed as this group. -/
theorem parseCondition_of_group {text : String} (htext : tokens text = ws) (hne : ws ≠ [])
    (hand : "and" ∉ ws) :
    parseCondition py (some text) = some <$> parseTerm py ws (some text) true := by
  have hsplit : ws.splitOn "and" = [ws] := by
    rw [List.splitOn_eq_splitOnP]
    apply List.splitOnP_eq_singleton
    intro w hw
    simp only [beq_eq_false_iff_ne]
    exact fun h => hand (h ▸ hw)
  obtain ⟨w, ws', rfl⟩ := List.exists_cons_of_ne_nil hne
  simp [parseCondition, htext, splitOnAnd, hsplit]

/-- A spelled condition is parsed from its printed form. -/
theorem Condition.Spelled.parse (h : cond.Spelled py) :
    parseCondition py (conditionToString (some cond)) = .ok (some cond) := by
  cases cond with
  | presence p =>
    have htokens : tokens s!"{p.field} {p.kind.word}" = [p.field, p.kind.word] := by
      rw [tokens_two, tokens_word h.2, tokens_word p.kind.word_word]
      rfl
    have hfield : "and" ≠ p.field := by
      intro hand
      have hname := h.1
      simp [← hand, isReferenceName, reservedNames] at hname
    have hkind : "and" ≠ p.kind.word := by cases p.kind <;> simp [PresenceKind.word]
    rw [conditionToString, parseCondition_of_group htokens (by simp) (by simp [hfield, hkind])]
    simp [parseTerm, h.1]
  | term t =>
    have ht : t.Spelled py := h
    rw [conditionToString, parseCondition_of_group ht.tokens_eq t.words_ne_nil ht.not_and,
      ht.parse]
    rfl
  | and a =>
    have hne : a.terms ≠ [] := List.ne_nil_of_length_pos (Nat.lt_of_lt_of_le (by simp) a.two_le)
    have htokens := tokens_intercalate_and h
    rw [conditionToString]
    generalize " and ".intercalate (a.terms.map Term.toText) = text at htokens
    have hsplit := splitOnAnd_words hne h (some text)
    have hparse : (a.terms.map Term.words).mapM (fun ws => parseTerm py ws (some text) false) =
        .ok (a.terms.map Condition.term) :=
      mapM_map_eq_ok fun t ht => (h t ht).parse (some text) false
    have hand : andOf (a.terms.map Condition.term) = .ok (.and a) := by
      have hterms : (a.terms.map Condition.term).mapM Condition.asTerm = .ok (a.terms.map id) :=
        mapM_map_eq_ok fun t _ => rfl
      simp [andOf, hterms, a.two_le]
    -- at least two terms: the third alternative of the parser
    match hterms : a.terms, a.two_le with
    | t₁ :: t₂ :: terms, _ =>
      rw [hterms] at htokens hsplit hparse hand
      obtain ⟨w, ws, hws⟩ := List.exists_cons_of_ne_nil t₁.words_ne_nil
      simp only [List.map_cons, List.intercalate_cons_cons, hws, List.cons_append] at htokens hsplit
      simp only [List.map_cons, hws] at hparse hand
      simp only [parseCondition, Option.getD_some, htokens, hsplit, hparse]
      simp only [bind, Except.bind, hand]
      rfl

/-! ### Right-hand sides -/

/-- The token that a template is printed as. -/
def templateToken (template : String) : String := "\"" ++ template ++ "\""

/-- The right-hand sides that the parsers return. -/
def AssignRHS.Spelled (py : Python) : AssignRHS → Prop
  | .value v => v.Spelled py ∧ ∀ w ∈ v.words.head?, AggFunc.ofWord? w = none ∧ w ≠ "format"
  | .aggregate a => isReferenceName py a.ref.name = true ∧ Word a.ref.name
  | .format f => Word (templateToken f.template) ∧ '"' ∉ f.template.toList ∧
    ∀ arg ∈ f.args, isReferenceName py arg.name = true ∧ Word arg.name

/-- A number is no function word. -/
theorem not_function_of_startsDigit (h : StartsDigit w) :
    AggFunc.ofWord? w = none ∧ w ≠ "format" := by
  constructor
  · cases hf : AggFunc.ofWord? w with
    | none => rfl
    | some f =>
      have hword := AggFunc.word_of_ofWord? hf
      exact absurd hword.symm (ne_of_startsDigit h (by cases f <;> simp [AggFunc.word]))
  · exact ne_of_startsDigit h (by simp)

/-- A value is printed with the first word that it was written with, or with a number. -/
theorem head_of_parseValueTokens (h : parseValueTokens py (word :: rest) text = .ok v) :
    ∀ w ∈ v.words.head?, w = word ∨ StartsDigit w := by
  unfold parseValueTokens at h
  split at h
  · next heq => exact absurd heq (by simp)
  · next token heq =>
    obtain ⟨rfl, -⟩ := List.cons.inj heq
    obtain ⟨o, ho, h⟩ := bind_eq_ok.mp h
    obtain rfl := pure_eq_ok.mp h
    simpa [Value.words] using toText_of_parseOperand py ho
  · next left op right heq =>
    obtain ⟨rfl, -⟩ := List.cons.inj heq
    split at h
    · exact absurd h (by simp)
    · obtain ⟨l, hl, h⟩ := bind_eq_ok.mp h
      obtain ⟨r, hr, h⟩ := bind_eq_ok.mp h
      obtain rfl := pure_eq_ok.mp h
      simpa [Value.words] using toText_of_parseOperand py hl
  · exact absurd h (by simp)

/-- The token of an accepted template is the template between quotes. -/
theorem templateToken_of_parse (h : parseTemplateToken py token text = .ok template) :
    templateToken template = token ∧ '"' ∉ template.toList := by
  unfold parseTemplateToken at h
  dsimp only at h
  split at h
  · exact absurd h (by simp)
  · next hshape =>
    split at h
    · exact absurd h (by simp)
    · next hquote =>
      obtain rfl := Except.ok.inj h
      push Not at hshape
      obtain ⟨hlength, hfirst, hlast⟩ := hshape
      obtain ⟨chars, htoken⟩ : ∃ chars, token.toList = '"' :: chars := by
        cases hchars : token.toList with
        | nil => simp [hchars] at hfirst
        | cons ch chars =>
          rw [hchars, List.head?_cons, Option.some.injEq] at hfirst
          exact ⟨chars, by rw [hfirst]⟩
      rw [htoken] at hlength hlast hquote
      have hne : chars ≠ [] := by
        rintro rfl
        simp at hlength
      have hend : chars.getLast hne = '"' := by
        rw [List.getLast?_cons, List.getLast?_eq_some_getLast hne] at hlast
        simpa using hlast
      constructor
      · apply String.toList_inj.mp
        rw [templateToken, htoken]
        simp only [String.toList_append, String.toList_ofList, List.tail_cons]
        rw [show "\"".toList = ['"'] from rfl, List.append_assoc, ← hend,
          List.dropLast_append_getLast hne]
        rfl
      · rw [String.toList_ofList, htoken]
        exact hquote

/-- The printed template is accepted. -/
theorem parseTemplateToken_print {template : String} (h : '"' ∉ template.toList)
    (text : Option String) :
    parseTemplateToken py (templateToken template) text = .ok template := by
  have hchars : (templateToken template).toList = '"' :: (template.toList ++ ['"']) := by
    simp [templateToken]
  unfold parseTemplateToken
  dsimp only
  have hlast : ('"' :: (template.toList ++ ['"'])).getLast? = some '"' := by
    rw [← List.cons_append, List.getLast?_concat]
  rw [hchars, if_neg (by simp [hlast]), List.tail_cons, List.dropLast_concat, if_neg h,
    String.ofList_toList]

/-- The arguments of an accepted `with` clause are references. -/
theorem spelled_of_parseWithClause (hws : ∀ w ∈ rest, Word w)
    (h : parseWithClause py rest text = .ok args) :
    ∀ arg ∈ args, isReferenceName py arg.name = true ∧ Word arg.name := by
  unfold parseWithClause at h
  split at h
  · obtain rfl := Except.ok.inj h
    simp
  · next word tail =>
    split at h
    · exact absurd h (by simp)
    · split at h
      · exact absurd h (by simp)
      · refine forall_of_mapM h fun token htoken arg harg => ?_
        unfold parseArgument at harg
        split at harg
        · next hname =>
          obtain rfl := Except.ok.inj harg
          exact ⟨hname, hws token (List.mem_cons_of_mem word htoken)⟩
        · exact absurd harg (by simp)

/-- The words that the arguments of a format call are printed as. -/
def withWords (args : List Ref) : List String :=
  if args.isEmpty then [] else "with" :: args.map Ref.name

theorem parseWithClause_print (h : ∀ arg ∈ args, isReferenceName py arg.name = true)
    (text : Option String) :
    parseWithClause py (withWords args) text = .ok args := by
  cases args with
  | nil => rfl
  | cons arg args =>
    have hread : ((arg :: args).map Ref.name).mapM (parseArgument py text) =
        .ok ((arg :: args).map id) :=
      mapM_map_eq_ok fun a ha => by simp [parseArgument, h a ha]
    rw [List.map_id] at hread
    rw [← hread]
    simp [withWords, parseWithClause]

/-- A template and the arguments of its `with` clause make a spelled call. -/
theorem spelled_format (htoken : Word token) (hws : ∀ w ∈ rest, Word w)
    (htemplate : parseTemplateToken py token text = .ok template)
    (hargs : parseWithClause py rest text = .ok args) :
    AssignRHS.Spelled py (.format ⟨template, args⟩) := by
  obtain ⟨hprint, hquote⟩ := templateToken_of_parse htemplate
  exact ⟨by rwa [hprint], hquote, spelled_of_parseWithClause hws hargs⟩

/-- The right-hand side that words are accepted as is spelled. -/
theorem spelled_of_parseRhsTokens (hws : ∀ w ∈ ws, Word w)
    (h : parseRhsTokens py ws text = .ok rhs) : rhs.Spelled py := by
  unfold parseRhsTokens at h
  split at h
  · obtain ⟨v, hv, -⟩ := map_eq_ok.mp h
    exact absurd hv (by simp [parseValueTokens])
  · next word rest =>
    split at h
    · next func hfunc =>
      obtain ⟨a, ha, rfl⟩ := map_eq_ok.mp h
      unfold parseAggregate at ha
      split at ha
      · next token =>
        split at ha
        · next hname =>
          obtain rfl := Except.ok.inj ha
          exact ⟨hname, hws token (by simp)⟩
        · exact absurd ha (by simp)
      · exact absurd ha (by simp)
    · next hfunc =>
      split at h
      · obtain ⟨f, hf, rfl⟩ := map_eq_ok.mp h
        unfold parseFormatRhs at hf
        split at hf
        · exact absurd hf (by simp)
        · next token tail =>
          obtain ⟨template, htemplate, hf⟩ := bind_eq_ok.mp hf
          obtain ⟨args, hargs, hf⟩ := bind_eq_ok.mp hf
          obtain rfl := pure_eq_ok.mp hf
          exact spelled_format (hws token (by simp))
            (fun w hw => hws w (by simp [hw])) htemplate hargs
      · next hformat =>
        obtain ⟨v, hv, rfl⟩ := map_eq_ok.mp h
        refine ⟨spelled_of_parseValueTokens hws hv, fun w hw => ?_⟩
        rcases head_of_parseValueTokens hv w hw with rfl | hdigit
        · exact ⟨hfunc, hformat⟩
        · exact not_function_of_startsDigit hdigit

/-- A text with words is read as the row of its words. -/
theorem parseValueOrAggregate_of_words {text : String} (htext : tokens text = word :: ws) :
    parseValueOrAggregate py (some text) = parseRhsTokens py (word :: ws) (some text) := by
  rw [parseValueOrAggregate, Option.getD_some, htext]

/-- A format call is printed as the row of its words. -/
theorem tokens_format (htemplate : Word (templateToken f.template))
    (hargs : ∀ arg ∈ f.args, Word arg.name) : tokens (valueToString (.format f)) =
      "format" :: templateToken f.template :: withWords f.args := by
  have hformat : Word "format" := word_of_all (by decide)
  have hwith : Word "with" := word_of_all (by decide)
  have hnames : ∀ w ∈ f.args.map Ref.name, Word w := by
    intro w hw
    obtain ⟨arg, harg, rfl⟩ := List.mem_map.mp hw
    exact hargs arg harg
  have hhead : s!"format \"{f.template}\"" = "format" ++ " " ++ templateToken f.template := by
    apply String.toList_inj.mp
    simp [templateToken, toString]
  unfold valueToString
  dsimp only
  rw [hhead]
  cases hempty : f.args.isEmpty with
  | true =>
    rw [if_pos rfl, tokens_append_space, tokens_word hformat, tokens_word htemplate]
    simp [withWords, hempty]
  | false =>
    have hspaces (a b : String) : a ++ " with " ++ b = a ++ " " ++ "with" ++ " " ++ b := by
      apply String.toList_inj.mp
      simp
    rw [if_neg (by simp), hspaces, tokens_append_space, tokens_append_space, tokens_append_space,
      tokens_word hformat, tokens_word htemplate, tokens_word hwith, tokens_unwords hnames]
    simp [withWords, hempty]

/-- A spelled right-hand side is parsed from its printed form. -/
theorem AssignRHS.Spelled.parse (h : rhs.Spelled py) :
    parseValueOrAggregate py (some (valueToString rhs)) = .ok rhs := by
  cases rhs with
  | value v =>
    have htokens := h.1.tokens_eq
    have hparse := h.1.parse (some v.toText)
    obtain ⟨w, ws, hws⟩ : ∃ w ws, v.words = w :: ws := by
      cases v <;> simp [Value.words]
    obtain ⟨hfunc, hformat⟩ := h.2 w (by simp [hws])
    rw [hws] at htokens hparse
    rw [valueToString, parseValueOrAggregate_of_words htokens]
    simp only [parseRhsTokens, hfunc, if_neg hformat, hparse]
    rfl
  | aggregate a =>
    have htokens : tokens s!"{a.func.word} {a.ref.name}" = [a.func.word, a.ref.name] := by
      rw [tokens_two, tokens_word h.2, tokens_word a.func.word_word]
      rfl
    rw [valueToString, parseValueOrAggregate_of_words htokens]
    simp only [parseRhsTokens, AggFunc.ofWord?_word, parseAggregate, if_pos h.1]
    rfl
  | format f =>
    obtain ⟨htemplate, hquote, hargs⟩ := h
    have htokens := tokens_format htemplate fun arg ha => (hargs arg ha).2
    have hword : AggFunc.ofWord? "format" = none := rfl
    have htoken := @parseTemplateToken_print py _ hquote (some (valueToString (.format f)))
    have hwith := parseWithClause_print (fun arg ha => (hargs arg ha).1)
      (some (valueToString (.format f)))
    rw [parseValueOrAggregate_of_words htokens]
    simp only [parseRhsTokens, hword, parseFormatRhs, htoken, hwith]
    rfl

/-- The right-hand side of an accepted assignment is spelled. -/
theorem spelled_of_parseAssignment (h : parseAssignment py text = .ok (target, rhs)) :
    rhs.Spelled py := by
  have hws : ∀ w ∈ tokens (text.getD ""), Word w := fun w hw => word_of_mem_tokens hw
  unfold parseAssignment at h
  split at h
  · next rest htokens =>
    rw [htokens] at hws
    split at h
    · exact absurd h (by simp)
    · dsimp only at h
      split at h
      · split at h
        · exact absurd h (by simp)
        · split at h
          · exact absurd h (by simp)
          · obtain ⟨r, hr, h⟩ := bind_eq_ok.mp h
            obtain ⟨-, rfl⟩ := Prod.mk.inj (pure_eq_ok.mp h)
            exact spelled_of_parseRhsTokens
              (fun w hw => hws w (List.mem_cons_of_mem _ (List.mem_of_mem_drop hw))) hr
      · exact absurd h (by simp)
  · exact absurd h (by simp)

/-- The call of an accepted format step is spelled. -/
theorem spelled_of_parseFormat (h : parseFormat py text = .ok (target, f)) :
    AssignRHS.Spelled py (.format f) := by
  have hws : ∀ w ∈ tokens (text.getD ""), Word w := fun w hw => word_of_mem_tokens hw
  unfold parseFormat at h
  split at h
  · next target' keyword token rest htokens =>
    rw [htokens] at hws
    split at h
    · exact absurd h (by simp)
    · split at h
      · exact absurd h (by simp)
      · obtain ⟨template, htemplate, h⟩ := bind_eq_ok.mp h
        obtain ⟨args, hargs, h⟩ := bind_eq_ok.mp h
        obtain ⟨_, _, h⟩ := bind_eq_ok.mp h
        obtain ⟨-, rfl⟩ := Prod.mk.inj (pure_eq_ok.mp h)
        exact spelled_format (hws token (by simp)) (fun w hw => hws w (by simp [hw])) htemplate
          hargs
  · exact absurd h (by simp)
  · exact absurd h (by simp)

/-! ### The round trip -/

/-- What is accepted is printed so that it is accepted again, as the same condition or right-hand
side with the same references. -/
structure RoundTrip (py : Python) : Prop where
  condition : ∀ text cond, parseCondition py text = .ok cond →
    ∃ cond', parseCondition py (conditionToString cond) = .ok cond' ∧ cond' = cond ∧
      Condition.references cond' = Condition.references cond
  assignment : ∀ text target rhs, parseAssignment py text = .ok (target, rhs) →
    ∃ rhs', parseValueOrAggregate py (some (valueToString rhs)) = .ok rhs' ∧ rhs' = rhs ∧
      rhs'.references = rhs.references
  format : ∀ text target f, parseFormat py text = .ok (target, f) →
    ∃ rhs', parseValueOrAggregate py (some (valueToString (.format f))) = .ok rhs' ∧
      rhs' = .format f ∧ rhs'.references = AssignRHS.references (.format f)

/-- **Round trip**: the condition and value language is read back as it is printed. -/
theorem roundTrip (py : Python) : RoundTrip py where
  condition text cond h := by
    cases cond with
    | none => exact ⟨none, rfl, rfl, rfl⟩
    | some cond => exact ⟨some cond, (spelled_of_parseCondition h).parse, rfl, rfl⟩
  assignment text target rhs h := ⟨rhs, (spelled_of_parseAssignment h).parse, rfl, rfl⟩
  format text target f h := ⟨.format f, (spelled_of_parseFormat h).parse, rfl, rfl⟩

/-- Units are made as coarse as they can be, leading zeros and extra spaces go away. -/
example : (parseCondition Python.ascii (some " order.age >=  007200s and x is-numeric")).map
    conditionToString = .ok (some "order.age >= 2h and x is-numeric") := by decide +kernel

end Lnpl.Front
