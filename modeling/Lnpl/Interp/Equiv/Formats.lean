import Lnpl.Front.Equiv.Condition
import Lnpl.Front.FormatSteps
import Lnpl.Interp.Conditions
import Lnpl.Interp.Plain

/-!
# Formats and their placeholders

The template with the texts of the arguments in its places is what `eval_format` returns, whatever
the last argument is, iff no placeholder is in front of the last one once the other arguments are in
theirs; and a `set` step, unlike a `format` step, may give a template more or fewer arguments than
it has placeholders (`format_positional_iff`).
-/

namespace Lnpl.Interp

open Front (Python FormatCall AssignRHS countPlaceholders parseAssignment parseFormat
  parseValueOrAggregate)
open Lib (Placeholders.cut Placeholders.fill Placeholders.lead Placeholders.HasMarks
  Placeholders.replaceAll_eq_fill_iff bind_eq_ok pure_eq_ok)

/-! ### Placeholders -/

/-- The template with the texts in its places. -/
def positional (template : String) (texts : List String) : String :=
  String.ofList (Placeholders.fill '\x7b' '\x7d' template.toList (texts.map String.toList))

/-- The template up to its last placeholder, the texts in the places of the others. -/
def beforeLast (template : String) (texts : List String) : List Char :=
  Placeholders.lead '\x7b' '\x7d' template.toList (texts.map String.toList)

/-- A placeholder is somewhere in the text. -/
def HasPlaceholder (text : List Char) : Prop :=
  ∃ front back, text = front ++ '\x7b' :: '\x7d' :: back

theorem cut_eq_none_iff_hasPlaceholder (text : List Char) :
    Placeholders.cut '\x7b' '\x7d' text = none ↔ ¬HasPlaceholder text := by
  rw [Lib.Placeholders.cut_eq_none_iff, HasPlaceholder]
  constructor
  · rintro h ⟨front, back, htext⟩
    exact h front back htext
  · intro h front back htext
    exact h ⟨front, back, htext⟩

theorem countPlaceholders_mark (chars : List Char) :
    countPlaceholders ('\x7b' :: '\x7d' :: chars) = countPlaceholders chars + 1 := by
  rw [countPlaceholders]

theorem countPlaceholders_cons {ch : Char} {chars : List Char}
    (h : ¬(ch = '\x7b' ∧ chars.head? = some '\x7d')) :
    countPlaceholders (ch :: chars) = countPlaceholders chars := by
  rw [countPlaceholders]
  intro rest hch hchars
  apply h
  rw [hch, hchars]
  exact ⟨rfl, rfl⟩

theorem countPlaceholders_of_cut (text : List Char) :
    (∀ front back, Placeholders.cut '\x7b' '\x7d' text = some (front, back) →
      countPlaceholders text = countPlaceholders back + 1) ∧
    (Placeholders.cut '\x7b' '\x7d' text = none → countPlaceholders text = 0) := by
  induction text with
  | nil =>
    refine ⟨fun front back h => ?_, fun _ => rfl⟩
    cases h
  | cons ch text ih =>
    cases text with
    | nil =>
      refine ⟨fun front back h => ?_, fun _ => countPlaceholders_cons fun h => ?_⟩
      · cases h
      · cases h.2
    | cons next text =>
      rw [Lib.Placeholders.cut]
      by_cases hmark : ch = '\x7b' ∧ next = '\x7d'
      · rw [if_pos hmark, hmark.1, hmark.2, countPlaceholders_mark]
        constructor
        · intro front back h
          cases h
          rfl
        · intro h
          cases h
      · have hhead : ¬(ch = '\x7b' ∧ (next :: text).head? = some '\x7d') := by
          rintro ⟨hch, hnext⟩
          exact hmark ⟨hch, Option.some.inj hnext⟩
        rw [if_neg hmark, countPlaceholders_cons hhead]
        constructor
        · intro front back h
          obtain ⟨⟨front', back'⟩, hcut, heq⟩ := Option.map_eq_some_iff.mp h
          cases heq
          exact ih.1 _ _ hcut
        · intro h
          exact ih.2 (Option.map_eq_none_iff.mp h)

/-- A template has the marks that are counted. -/
theorem hasMarks_countPlaceholders {n : Nat} {text : List Char} (h : countPlaceholders text = n) :
    Placeholders.HasMarks '\x7b' '\x7d' n text := by
  induction n generalizing text with
  | zero => trivial
  | succ n ih =>
    cases hcut : Placeholders.cut '\x7b' '\x7d' text with
    | none =>
      rw [(countPlaceholders_of_cut text).2 hcut] at h
      cases h
    | some parts =>
      obtain ⟨front, back⟩ := parts
      rw [(countPlaceholders_of_cut text).1 front back hcut] at h
      exact ⟨front, back, hcut, ih (Nat.succ.inj h)⟩

/-! ### Arguments of any text -/

variable {py : Python} {ops : JsonOps}

/-- The name of an input field, for every number another. -/
def argumentName (k : Nat) : String := String.ofList (List.replicate (k + 1) 'a')

variable {k : Nat} {template target stepId : String} {words : List String}
  {node : Front.AssignmentNode} {baseOf : List (String × String)}

theorem argumentName_injective {j : Nat} (h : argumentName j = argumentName k) : j = k := by
  have hchars := congrArg (fun name => name.toList.length) h
  simp only [argumentName, String.toList_ofList, List.length_replicate] at hchars
  omega

theorem refOf_argumentName (k : Nat) : refOf (argumentName k) = .bare (argumentName k) := by
  have hdot : '.' ∉ (argumentName k).toList := by
    rw [argumentName, String.toList_ofList, List.mem_replicate]
    rintro ⟨-, h⟩
    cases h
  rw [refOf, Front.partitionName, if_neg hdot]

/-- References to so many input fields. -/
def argumentsFor : Nat → List String → List Front.Ref
  | _, [] => []
  | k, _ :: texts => ⟨argumentName k⟩ :: argumentsFor (k + 1) texts

/-- The input with the texts in these fields. -/
def inputOf : Nat → List String → Dict
  | _, [] => ∅
  | k, text :: texts => (inputOf (k + 1) texts).insert (argumentName k) (.str text)

theorem inputOf_getElem? (k : Nat) (texts : List String) (i : Nat) :
    (inputOf k texts)[argumentName (k + i)]? = texts[i]?.map Json.str := by
  induction texts generalizing k i with
  | nil => rw [inputOf, Std.ExtTreeMap.getElem?_empty, List.getElem?_nil, Option.map_none]
  | cons text texts ih =>
    rw [inputOf, Std.ExtTreeMap.getElem?_insert]
    cases i with
    | zero => rw [Nat.add_zero, if_pos Std.ReflCmp.compare_self]; rfl
    | succ i =>
      have hne : compare (argumentName k) (argumentName (k + (i + 1))) ≠ .eq := by
        intro heq
        have hname := argumentName_injective (Std.LawfulEqCmp.eq_of_compare heq)
        omega
      rw [if_neg hne, List.getElem?_cons_succ, ← ih (k + 1) i]
      congr 2
      omega

variable {texts : List String} {fmt : FormatCall} {text : Option String} {line : Front.StepLine}
  {registry : List Front.EntityDecl}

theorem mapM_argumentText (hstr : ∀ s, ops.str (.str s) = s) {input : Dict}
    (h : ∀ i, i < texts.length → input[argumentName (k + i)]? = texts[i]?.map Json.str) :
    (argumentsFor k texts).mapM (argumentText ops ⟨input, ∅, none⟩) = some texts := by
  induction texts generalizing k with
  | nil => rfl
  | cons text texts ih =>
    have hfirst := h 0 (Nat.zero_lt_succ _)
    have hrest := @ih (k + 1) (fun i hi => by
      have hnext := h (i + 1) (Nat.succ_lt_succ hi)
      rwa [← Nat.add_assoc, Nat.add_right_comm, List.getElem?_cons_succ] at hnext)
    rw [Nat.add_zero, List.getElem?_cons_zero, Option.map_some] at hfirst
    have htext : argumentText ops ⟨input, ∅, none⟩ ⟨argumentName k⟩ = some text := by
      rw [argumentText, refOf_argumentName, resolveReference, Dict.get, hfirst, Option.getD_some]
      dsimp only
      rw [hstr]
    rw [argumentsFor, List.mapM_cons, htext, hrest]
    rfl

/-! ### The formatted text -/

/-- Whatever the last argument is, the texts of the arguments are in their places. -/
def IsPositional (ops : JsonOps) (template : String) (texts : List String) : Prop :=
  ∀ (fmt : FormatCall) (scope : Scope) (last : String), fmt.template = template →
    fmt.args.mapM (argumentText ops scope) = some (texts ++ [last]) →
      evalFormat ops scope fmt = some (positional template (texts ++ [last]))

theorem evalFormat_of_texts {scope : Scope}
    (h : fmt.args.mapM (argumentText ops scope) = some texts) :
    evalFormat ops scope fmt = some (substituted fmt.template texts) := by
  rw [evalFormat, h]
  rfl

theorem substituted_eq_positional_iff :
    substituted template texts = positional template texts ↔
      Lib.Placeholders.replaceAll '{' '}' template.toList (texts.map String.toList) =
        Placeholders.fill '{' '}' template.toList (texts.map String.toList) :=
  String.ofList_inj

/-- **Positional substitution** iff no placeholder is in front of the last one. -/
theorem isPositional_iff (hstr : ∀ s, ops.str (.str s) = s)
    (hcount : countPlaceholders template.toList = texts.length + 1) :
    IsPositional ops template texts ↔ ¬HasPlaceholder (beforeLast template texts) := by
  have hmarks := hasMarks_countPlaceholders hcount
  rw [← @List.length_map _ _ texts String.toList] at hmarks
  have hiff := Placeholders.replaceAll_eq_fill_iff (show '{' ≠ '}' by decide) hmarks
  rw [← cut_eq_none_iff_hasPlaceholder, beforeLast, ← hiff]
  constructor
  · intro h part
    -- the arguments are input fields of these texts
    have hinput : ∀ i, i < (texts ++ [String.ofList part]).length →
        (inputOf 0 (texts ++ [String.ofList part]))[argumentName (0 + i)]? =
          (texts ++ [String.ofList part])[i]?.map Json.str :=
      fun i _ => inputOf_getElem? 0 _ i
    have htexts := mapM_argumentText hstr hinput
    have heval := h ⟨template, argumentsFor 0 (texts ++ [String.ofList part])⟩ _
      (String.ofList part) rfl htexts
    rw [evalFormat_of_texts htexts, Option.some.injEq, substituted_eq_positional_iff] at heval
    simpa only [List.map_append, List.map_singleton, String.toList_ofList] using heval
  · intro h fmt scope last htemplate htexts
    rw [evalFormat_of_texts htexts, htemplate, Option.some.injEq, substituted_eq_positional_iff,
      List.map_append, List.map_singleton]
    exact h last.toList

/-- A template without placeholders, and a call without arguments. -/
theorem evalFormat_nil (scope : Scope) (template : String) :
    evalFormat ops scope ⟨template, []⟩ = some template := by
  have hnone : ([] : List Front.Ref).mapM (argumentText ops scope) = some [] := rfl
  rw [evalFormat_of_texts hnone, substituted]
  exact congrArg some String.ofList_toList

/-! ### The format calls of assignments -/

theorem countPlaceholders_append_quote (chars : List Char) :
    countPlaceholders (chars ++ ['"']) = countPlaceholders chars := by
  induction chars with
  | nil => rfl
  | cons ch chars ih =>
    rw [List.cons_append]
    by_cases hmark : ch = '\x7b' ∧ chars.head? = some '\x7d'
    · obtain ⟨rfl, hhead⟩ := hmark
      cases chars with
      | nil => cases hhead
      | cons next rest =>
        obtain rfl := Option.some.inj hhead
        have hclose : ∀ chars : List Char, ¬('\x7d' = '\x7b' ∧ chars.head? = some '\x7d') :=
          fun _ h => absurd h.1 (by decide)
        rw [List.cons_append, countPlaceholders_cons (hclose _),
          countPlaceholders_cons (hclose _)] at ih
        rw [List.cons_append, countPlaceholders_mark, countPlaceholders_mark, ih]
    · have hmark' : ¬(ch = '\x7b' ∧ (chars ++ ['"']).head? = some '\x7d') := by
        rintro ⟨hch, hhead⟩
        cases chars with
        | nil => exact absurd hhead (by decide)
        | cons next rest => exact hmark ⟨hch, hhead⟩
      rw [countPlaceholders_cons hmark, countPlaceholders_cons hmark', ih]

theorem countPlaceholders_templateToken (template : String) :
    countPlaceholders (Front.templateToken template).toList =
      countPlaceholders template.toList := by
  have hchars : (Front.templateToken template).toList = '"' :: (template.toList ++ ['"']) := by
    simp [Front.templateToken]
  have hquote : ¬('"' = '\x7b' ∧ (template.toList ++ ['"']).head? = some '\x7d') :=
    fun h => absurd h.1 (by decide)
  rw [hchars, countPlaceholders_cons hquote, countPlaceholders_append_quote]

theorem length_of_parseWithClause {rest : List String} {args : List Front.Ref}
    (h : Front.parseWithClause py rest text = .ok args) :
    args.length = rest.length - 1 := by
  cases rest with
  | nil =>
    cases h
    rfl
  | cons word rest =>
    rw [Front.parseWithClause] at h
    split_ifs at h with hword hempty
    exact (Lib.mapM_eq_ok.mp h).length_eq.symm

/-- The words of a right side that is a format call. -/
theorem words_of_parseRhsTokens (h : Front.parseRhsTokens py words text = .ok (.format fmt)) :
    ∃ token rest, words = "format" :: token :: rest ∧ Front.templateToken fmt.template = token ∧
      fmt.args.length = rest.length - 1 := by
  cases words with
  | nil =>
    obtain ⟨v, -, hv⟩ := Lib.map_eq_ok.mp h
    cases hv
  | cons word rest =>
    rw [Front.parseRhsTokens] at h
    cases hfunc : Front.AggFunc.ofWord? word with
    | some func =>
      rw [hfunc] at h
      obtain ⟨agg, -, hagg⟩ := Lib.map_eq_ok.mp h
      cases hagg
    | none =>
      rw [hfunc] at h
      dsimp only at h
      split_ifs at h with hformat
      · obtain ⟨fmt', hfmt, heq⟩ := Lib.map_eq_ok.mp h
        obtain rfl := AssignRHS.format.inj heq
        cases rest with
        | nil => cases hfmt
        | cons token rest =>
          obtain ⟨template, htemplate, hrest⟩ := bind_eq_ok.mp hfmt
          obtain ⟨args, hargs, hcall⟩ := bind_eq_ok.mp hrest
          obtain rfl := pure_eq_ok.mp hcall
          exact ⟨token, rest, by rw [hformat], (Front.templateToken_of_parse htemplate).1,
            length_of_parseWithClause hargs⟩
      · obtain ⟨v, -, hv⟩ := Lib.map_eq_ok.mp h
        cases hv

/-- One word in front of the first of some kind. -/
theorem eq_cons_of_take_idxOf {first word : String} (hmem : word ∈ words)
    (h : words.take (words.idxOf word) = [first]) :
    ∃ rest, words = first :: word :: rest ∧ words.drop (words.idxOf word + 1) = rest := by
  have hlt := List.idxOf_lt_length_iff.mpr hmem
  have hindex : words.idxOf word = 1 := by
    have hlength := congrArg List.length h
    rw [List.length_take, List.length_singleton] at hlength
    omega
  have hword : words[words.idxOf word]? = some word := by
    rw [List.getElem?_eq_getElem hlt, List.getElem_idxOf hlt]
  rw [hindex] at h hword ⊢
  match words with
  | [] => cases h
  | [_] => cases hword
  | a :: b :: rest =>
    cases h
    cases hword
    exact ⟨rest, rfl, rfl⟩

/-- The words of an accepted `set` step of a format call. -/
theorem words_of_parseAssignment {text : String}
    (h : parseAssignment py (some text) = .ok (target, .format fmt)) :
    ∃ token rest, Front.tokens text = "set" :: target :: "to" :: "format" :: token :: rest ∧
      Front.templateToken fmt.template = token ∧ fmt.args.length = rest.length - 1 := by
  unfold parseAssignment at h
  rw [Option.getD_some] at h
  split at h
  · next words htokens =>
    split at h
    · cases h
    · next hto =>
      dsimp only at h
      split at h
      · next first htake =>
        split at h
        · cases h
        · split at h
          · cases h
          · obtain ⟨rhs, hrhs, hpair⟩ := bind_eq_ok.mp h
            obtain ⟨rfl, rfl⟩ := Prod.mk.inj (pure_eq_ok.mp hpair)
            obtain ⟨behind, hwords, hdrop⟩ := eq_cons_of_take_idxOf (not_not.mp hto) htake
            rw [hdrop] at hrhs
            obtain ⟨token, rest, rfl, htoken, hlength⟩ := words_of_parseRhsTokens hrhs
            exact ⟨token, rest, by rw [htokens, hwords], htoken, hlength⟩
      · cases h
  · cases h

/-- The call of an accepted `format` step has an argument for every placeholder. -/
theorem length_of_parseFormat (h : parseFormat py text = .ok (target, fmt)) :
    fmt.args.length = countPlaceholders fmt.template.toList := by
  unfold parseFormat at h
  split at h
  · split at h
    · cases h
    · split at h
      · cases h
      · obtain ⟨template, -, hrest⟩ := bind_eq_ok.mp h
        obtain ⟨args, -, hrest'⟩ := bind_eq_ok.mp hrest
        obtain ⟨_, hcount, hpair⟩ := bind_eq_ok.mp hrest'
        obtain ⟨-, rfl⟩ := Prod.mk.inj (pure_eq_ok.mp hpair)
        unfold Front.checkPlaceholderCount at hcount
        dsimp only at hcount
        split_ifs at hcount with hne
        exact (not_not.mp hne).symm
  · cases h
  · cases h

theorem raiseFault_eq_ok {α : Type} {x : Except Front.Fault α} {a : α} :
    Front.raiseFault line x = .ok a ↔ x = .ok a := by
  cases x with
  | ok b => rw [Front.raiseFault, Except.ok.injEq, Except.ok.injEq]
  | error fault =>
    cases fault with
    | condition message => exact iff_of_false nofun nofun
    | value message => exact iff_of_false nofun nofun
    | overflow message => exact iff_of_false nofun nofun

/-- The format call of a node is that of its step. -/
theorem eq_of_reread {rhs : AssignRHS} (hspelled : rhs.Spelled py)
    (h : parseValueOrAggregate py (some (Front.valueToString rhs)) = .ok (.format fmt)) :
    rhs = .format fmt := by
  rw [hspelled.parse, Except.ok.injEq] at h
  exact h

/-- A `format` step has as many arguments as its template has placeholders. -/
theorem length_of_deriveFormat (hnode : Front.deriveFormat py registry stepId line = .ok node)
    (h : parseValueOrAggregate py (some node.expression) = .ok (.format fmt)) :
    fmt.args.length = countPlaceholders fmt.template.toList := by
  obtain ⟨⟨target, value⟩, hparse, hrest⟩ := bind_eq_ok.mp hnode
  obtain ⟨entity, -, hentity⟩ := bind_eq_ok.mp hrest
  obtain rfl := pure_eq_ok.mp hentity
  have hformat := raiseFault_eq_ok.mp hparse
  obtain rfl := AssignRHS.format.inj (eq_of_reread (Front.spelled_of_parseFormat hformat) h)
  exact length_of_parseFormat hformat

theorem parseSet_eq_ok {result : String × AssignRHS}
    (h : Front.parseSet py baseOf registry line = .ok result) :
    parseAssignment py (some line.text) = .ok result := by
  rw [Front.parseSet] at h
  cases hparse : parseAssignment py (some line.text) with
  | ok result' =>
    rw [hparse] at h
    have hok : Front.raiseFault line (.ok result') = .ok result := h
    exact raiseFault_eq_ok.mp hok
  | error fault =>
    rw [hparse] at h
    cases fault with
    | condition message =>
      dsimp only at h
      cases htarget : Front.textTarget baseOf registry line with
      | none =>
        rw [htarget] at h
        cases h
      | some parts =>
        rw [htarget] at h
        cases h
    | value message => cases h
    | overflow message => cases h

/-- A `set` step has as many arguments as its template has placeholders iff it is written so. -/
theorem length_of_deriveAssignment_iff {hidden : Front.EntityDecl → Option String}
    (hnode : Front.deriveAssignment py baseOf registry hidden stepId line = .ok node)
    (h : parseValueOrAggregate py (some node.expression) = .ok (.format fmt)) :
    fmt.args.length = countPlaceholders fmt.template.toList ↔
      ((Front.tokens line.text).drop 6).length =
        countPlaceholders ((Front.tokens line.text)[4]?.getD "").toList := by
  have hvalue : ∃ target value, parseAssignment py (some line.text) = .ok (target, value) ∧
      node.expression = Front.valueToString value := by
    obtain ⟨⟨target, value⟩, hparse, hrest⟩ := bind_eq_ok.mp hnode
    obtain ⟨-, -, hentity⟩ := bind_eq_ok.mp hrest
    obtain ⟨entity, -, hvisible⟩ := bind_eq_ok.mp hentity
    obtain ⟨-, -, hpure⟩ := bind_eq_ok.mp hvisible
    obtain rfl := pure_eq_ok.mp hpure
    exact ⟨target, value, parseSet_eq_ok hparse, rfl⟩
  obtain ⟨target, value, hparse, hexpression⟩ := hvalue
  rw [hexpression] at h
  obtain rfl := eq_of_reread (Front.spelled_of_parseAssignment hparse) h
  obtain ⟨token, rest, htokens, htoken, hlength⟩ := words_of_parseAssignment hparse
  have hdrop : ((Front.tokens line.text).drop 6).length = fmt.args.length := by
    rw [htokens, hlength]
    cases rest with
    | nil => rfl
    | cons word rest => rfl
  have hword : (Front.tokens line.text)[4]?.getD "" = token := by
    rw [htokens]
    rfl
  rw [hdrop, hword, ← htoken, countPlaceholders_templateToken]

/-- **Format calls** put the texts of their arguments in the places of the template, whatever the
last one is, iff no placeholder is in front of the last place; a `format` step gives as many
arguments as there are places, and a `set` step does iff it is written so. -/
theorem format_positional_iff (py : Python) (ops : JsonOps) (hstr : ∀ s, ops.str (.str s) = s) :
    (∀ scope template, evalFormat ops scope ⟨template, []⟩ = some template) ∧
    (∀ (template : String) (texts : List String),
      countPlaceholders template.toList = texts.length + 1 →
        (IsPositional ops template texts ↔ ¬HasPlaceholder (beforeLast template texts))) ∧
    (∀ registry stepId line node fmt,
      Front.deriveFormat py registry stepId line = .ok node →
      parseValueOrAggregate py (some node.expression) = .ok (.format fmt) →
        fmt.args.length = countPlaceholders fmt.template.toList) ∧
    ∀ baseOf registry hidden stepId line node fmt,
      Front.deriveAssignment py baseOf registry hidden stepId line = .ok node →
      parseValueOrAggregate py (some node.expression) = .ok (.format fmt) →
        (fmt.args.length = countPlaceholders fmt.template.toList ↔
          ((Front.tokens line.text).drop 6).length =
            countPlaceholders ((Front.tokens line.text)[4]?.getD "").toList) := by
  refine ⟨evalFormat_nil, ?_, ?_, ?_⟩
  · intro template texts hcount
    exact isPositional_iff hstr hcount
  · intro registry stepId line node fmt hnode h
    exact length_of_deriveFormat hnode h
  · intro baseOf registry hidden stepId line node fmt hnode h
    exact length_of_deriveAssignment_iff hnode h

theorem format_positional_plain :
    (∀ s, Json.plainStr (.str s) = s) ∧
      (IsPositional ⟨Json.plainStr, Json.plainStr, Json.plainEq⟩ "\x7b\x7d-\x7b\x7d" ["a"] ↔
        ¬HasPlaceholder (beforeLast "\x7b\x7d-\x7b\x7d" ["a"])) :=
  ⟨fun _ => rfl, (format_positional_iff .ascii ⟨Json.plainStr, Json.plainStr, Json.plainEq⟩
    fun _ => rfl).2.1 "\x7b\x7d-\x7b\x7d" ["a"] (by decide)⟩

/-- An order with a label. -/
def labelledOrder : Front.EntityDecl where
  id := "Order"
  name := "Order"
  qualified := "Order"
  binding := "order"
  fields := [⟨"label", "Text", false⟩]

/-- What a workflow that reads the order may name. -/
def labelScope : Front.Scope where
  workflowName := "Label"
  registry := [labelledOrder]
  readEntities := ["Order"]

/-- A `set` step of two arguments for one placeholder. -/
def surplusStep : Front.StepLine where
  tokens := ["set", "order.label", "to", "format", "\"\x7b\x7d\"", "with", "input.label",
    "order.label"]
  lineno := 1

/-- Its node. -/
def surplusNode : Front.AssignmentNode where
  id := "s1.assign"
  target := "order.label"
  expression := "format \"\x7b\x7d\" with input.label order.label"
  entity := "Order"
  line := 1

/-- A first argument that is a placeholder takes the second, and the `set` step is lowered. -/
theorem braces_misplaced :
    evalFormat ⟨Json.plainStr, Json.plainStr, Json.plainEq⟩
        ⟨(∅ : Dict).insert "a" (.str "\x7b\x7d") |>.insert "b" (.str "x"), ∅, none⟩
        ⟨"\x7b\x7d-\x7b\x7d", [⟨"a"⟩, ⟨"b"⟩]⟩ = some "x-\x7b\x7d" ∧
      positional "\x7b\x7d-\x7b\x7d" ["\x7b\x7d", "x"] = "\x7b\x7d-x" ∧
    Front.deriveAssignment .ascii [] [labelledOrder] (fun _ => none) "s1" surplusStep =
        .ok surplusNode ∧
      parseValueOrAggregate .ascii (some surplusNode.expression) =
        .ok (.format ⟨"\x7b\x7d", [⟨"input.label"⟩, ⟨"order.label"⟩]⟩) ∧
      labelScope.checkFormat .ascii surplusNode.target surplusStep.text
        ⟨"\x7b\x7d", [⟨"input.label"⟩, ⟨"order.label"⟩]⟩ = .ok () := by
  refine ⟨?_, ?_, ?_, ?_, ?_⟩
  · decide +kernel
  · decide +kernel
  · decide +kernel
  · decide +kernel
  · decide +kernel

end Lnpl.Interp
