import Lnpl.Lib.Results
import Lnpl.Lsp.Equiv.Positions
import Lnpl.Lsp.Server

/-!
# The language server publishes the diagnostics of every text that can be placed

A run is faithful, each text followed by one publication whose ranges name the tokens and each quick
fix an edit of the verb alone, if and only if what is reported on each of its texts can be placed.
-/

namespace Lnpl.Lsp

open Lib (wordsAt)
open Lib.JsonText (Text codes)
open Lib.PyText (isWhite strip split lineBreaks splitlines)

/-! ### The lines of the lexer -/

variable {text uri : Text} {lines : List Line} {line : Line} {found : List Report}
  {out : List Published} {published : Published} {session : Session} {editor : Editor}

theorem split_ne_nil (h : strip text ≠ []) : split (strip text) ≠ [] := by
  rw [Lib.PyText.split_strip]
  exact fun hnil => h (strip_of_white (Lib.forall_of_words_eq_nil hnil))

/-- A line of the lexer is the significant line of its number. -/
theorem line_of_tokenizeFrom {raws : List Text} {lineno : Nat}
    (h : tokenizeFrom lineno raws = .ok lines) (hmem : line ∈ lines) :
    ∃ i raw, raws[i]? = some raw ∧ line.lineno = lineno + i ∧
      line.tokens = split (stripComment raw) ∧ line.tokens ≠ [] := by
  induction raws generalizing lineno lines with
  | nil =>
    obtain rfl := Except.ok.inj h
    cases hmem
  | cons raw raws ih =>
    have hlater : ∀ {lines}, tokenizeFrom (lineno + 1) raws = .ok lines → line ∈ lines →
        ∃ i raw', (raw :: raws)[i]? = some raw' ∧ line.lineno = lineno + i ∧
          line.tokens = split (stripComment raw') ∧ line.tokens ≠ [] := by
      intro lines hlines hline
      obtain ⟨i, raw', hraw, hlineno, htokens⟩ := ih hlines hline
      exact ⟨i + 1, raw', hraw, by omega, htokens⟩
    unfold tokenizeFrom at h
    split at h
    · cases h
    · split at h
      · exact hlater h hmem
      · next hblank =>
        dsimp only at h
        split at h
        · cases h
        · obtain ⟨rest, hrest, rfl⟩ := Lib.map_eq_ok.mp h
          rcases List.mem_cons.mp hmem with rfl | hmem
          · exact ⟨0, raw, rfl, rfl, Lib.PyText.split_strip _, split_ne_nil hblank⟩
          · exact hlater hrest hmem

/-- The tokens of a line are those of the source line of its number. -/
theorem lineBody_of_tokenize (h : tokenize text = .ok lines) (hmem : line ∈ lines) : ∃ base body,
      lineBody text line.lineno = some (base, body) ∧ line.tokens = split body ∧
        line.tokens ≠ [] := by
  obtain ⟨i, raw, hraw, hlineno, htokens, hne⟩ := line_of_tokenizeFrom h hmem
  rw [splitlines, List.getElem?_map] at hraw
  obtain ⟨part, hpart, rfl⟩ := Option.map_eq_some_iff.mp hraw
  have hpos : ¬(line.lineno : Int) < 1 := by omega
  have hindex : (line.lineno : Int).toNat - 1 = i := by omega
  refine ⟨(((lineBreaks.lines text).take i).map List.length).sum,
    stripComment (lineBreaks.content part), ?_, htokens, hne⟩
  unfold lineBody
  rw [if_neg hpos]
  dsimp only
  rw [hindex, hpart]
  rfl

/-- The first token of a line is found first, behind its indentation. -/
theorem span_of_tokenize (h : tokenize text = .ok lines) (hmem : line ∈ lines) :
    ∃ base front verb back,
      lineBody text line.lineno = some (base, front ++ verb ++ back) ∧
        (∀ code ∈ front, isWhite code = true) ∧
        (split (front ++ verb ++ back)).head? = some verb ∧ line.tokens.headD [] = verb ∧
        span text (some line.lineno) (some verb) =
          some (base + front.length, base + front.length + verb.length) := by
  obtain ⟨base, body, hbody, htokens, hne⟩ := lineBody_of_tokenize h hmem
  have hwords := Lib.snd_wordsAt (p := isWhite) 0 body
  cases hat : wordsAt isWhite 0 body with
  | nil =>
    rw [hat] at hwords
    rw [htokens, split, ← hwords] at hne
    exact absurd rfl hne
  | cons found more =>
    obtain ⟨start, verb⟩ := found
    rw [hat, List.map_cons] at hwords
    have hfirst : (start, verb) ∈ wordsAt isWhite 0 body := by
      rw [hat]
      exact List.mem_cons_self
    obtain ⟨front, back, hsplit, hstart⟩ := Lib.split_of_mem_wordsAt hfirst
    rw [Nat.zero_add] at hstart
    have hfront := Lib.front_of_wordsAt hat
    rw [hstart, Nat.sub_zero, hsplit, List.append_assoc, List.take_left] at hfront
    have hblank : strip body ≠ [] := by
      intro hblank
      have hnil := Lib.PyText.split_strip body
      rw [hblank, split, Lib.words_nil] at hnil
      rw [htokens, ← hnil] at hne
      exact hne rfl
    rw [hsplit] at hwords
    refine ⟨base, front, verb, back, hsplit ▸ hbody, hfront, ?_, ?_, ?_⟩
    · rw [split, ← hwords]
      rfl
    · rw [htokens, hsplit, split, ← hwords]
      rfl
    · unfold span
      have hfind : (wordsAt isWhite 0 body).find? (fun found => some found.2 = some verb) =
          some (front.length, verb) := by
        rw [hat, hstart]
        exact List.find?_cons_of_pos (decide_eq_true rfl)
      simp only [Option.bind_eq_bind, Option.bind_some, hbody, if_neg hblank, hfind]

/-! ### Reports -/

/-- A report at its line. -/
def placeReport (text : Text) (report : Report) : Option Published :=
  (lineSpan text report.lineno report.diagnostic.subject).map fun range =>
    ⟨report.diagnostic, range⟩

def placeReports (text : Text) : List Report → Option (List Published)
  | [] => some []
  | report :: found => do
    let published ← placeReport text report
    let rest ← placeReports text found
    return published :: rest

theorem placeAll_eq (text : Text) (diagnostics : List Diagnostic) :
    placeAll text diagnostics = placeReports text (diagnostics.map Report.ofDiagnostic) := by
  induction diagnostics with
  | nil => rfl
  | cons diagnostic diagnostics ih =>
    rw [placeAll, ih]
    rfl

theorem placeReports_append (text : Text) (found more : List Report) :
    placeReports text (found ++ more) =
      (placeReports text found).bind fun out => (placeReports text more).map (out ++ ·) := by
  induction found with
  | nil =>
    rw [List.nil_append]
    cases placeReports text more <;> simp [placeReports]
  | cons report found ih =>
    rw [List.cons_append, placeReports, placeReports, ih]
    cases placeReport text report with
    | none => rfl
    | some published =>
      cases placeReports text found with
      | none => rfl
      | some out => cases placeReports text more <;> rfl

theorem placeReports_singleton (text : Text) (report : Report) :
    placeReports text [report] = (placeReport text report).map fun published => [published] := by
  rw [placeReports, placeReports]
  cases placeReport text report <;> rfl

/-- **`_compile`** places what is reported. -/
theorem compile_eq (compiler : Compiler) (text uri : Text) :
    compile compiler text uri = (reports compiler text uri).bind (placeReports text) := by
  unfold compile reports
  cases tokenize text with
  | error message => exact (placeReports_singleton text (.compileError message)).symm
  | ok lines =>
    dsimp only
    cases compiler.lower lines uri with
    | error message => exact (placeReports_singleton text (.compileError message)).symm
    | ok module =>
      dsimp only
      have hfound : placeAll text (module.findings.map compiler.diagnostic) =
          placeReports text (module.findings.map fun finding =>
            .ofDiagnostic (compiler.diagnostic finding)) := by
        rw [placeAll_eq, List.map_map]
        rfl
      rw [hfound]
      cases module.extensions with
      | error fault =>
        cases fault with
        | refused message =>
          rw [Option.bind_some, placeReports_append, placeReports_singleton]
          cases placeReports text _ with
          | none => rfl
          | some out =>
            rw [Option.bind_some, Option.map_map]
            rfl
        | raised => cases placeReports text _ <;> rfl
      | ok records =>
        rw [Option.bind_some, placeReports_append]
        cases placeReports text _ with
        | none => rfl
        | some out =>
          dsimp only
          rw [placeAll_eq, List.map_map]
          rfl

/-- Reports are placed iff each can be. -/
theorem placeReports_isSome (text : Text) (found : List Report) :
    (∃ published, placeReports text found = some published) ↔
      ∀ report ∈ found, Encodable text report.lineno report.diagnostic.subject := by
  induction found with
  | nil => exact iff_of_true ⟨[], rfl⟩ fun _ h => nomatch h
  | cons report found ih =>
    rw [List.forall_mem_cons, ← ih, ← lineSpan_isSome, placeReports, placeReport]
    constructor
    · rintro ⟨published, h⟩
      obtain ⟨first, hfirst, h⟩ := Option.bind_eq_some_iff.mp h
      obtain ⟨rest, hrest, -⟩ := Option.bind_eq_some_iff.mp h
      obtain ⟨range, hrange, -⟩ := Option.map_eq_some_iff.mp hfirst
      exact ⟨⟨range, hrange⟩, rest, hrest⟩
    · rintro ⟨⟨range, hrange⟩, rest, hrest⟩
      exact ⟨_, by rw [hrange, hrest]; rfl⟩

/-- What is placed is what is reported, each at the range of its line. -/
theorem placed_of_placeReports (h : placeReports text found = some out) :
    out.map Published.diagnostic = found.map Report.diagnostic ∧
      ∀ published ∈ out, ∃ report ∈ found, published.diagnostic = report.diagnostic ∧
        lineSpan text report.lineno report.diagnostic.subject = some published.range := by
  induction found generalizing out with
  | nil =>
    obtain rfl := Option.some.inj h
    exact ⟨rfl, fun _ hmem => nomatch hmem⟩
  | cons report found ih =>
    rw [placeReports] at h
    obtain ⟨first, hfirst, h⟩ := Option.bind_eq_some_iff.mp h
    obtain ⟨rest, hrest, h⟩ := Option.bind_eq_some_iff.mp h
    obtain ⟨range, hrange, rfl⟩ := Option.map_eq_some_iff.mp hfirst
    obtain rfl := Option.some.inj h
    obtain ⟨hmap, hplaced⟩ := ih hrest
    refine ⟨congrArg (report.diagnostic :: ·) hmap, ?_⟩
    intro published hmem
    rcases List.mem_cons.mp hmem with rfl | hmem
    · exact ⟨report, List.mem_cons_self, rfl, hrange⟩
    · obtain ⟨other, hother, hrest⟩ := hplaced published hmem
      exact ⟨other, List.mem_cons_of_mem _ hother, hrest⟩

variable {report : Report} {lineno : Int} {action : Action}

/-- A report is placed at the line that its data name. -/
theorem lineno_of_reports {compiler : Compiler} (h : reports compiler text uri = some found)
    (hmem : report ∈ found) (hline : report.diagnostic.line = some lineno) :
    report.lineno = some lineno := by
  have hone : ∀ message, report = .compileError message → report.lineno = some lineno := by
    rintro message rfl
    cases hline
  have hof : ∀ diagnostic, report = .ofDiagnostic diagnostic → report.lineno = some lineno := by
    rintro diagnostic rfl
    exact hline
  unfold reports at h
  split at h
  · obtain rfl := Option.some.inj h
    exact hone _ (List.mem_singleton.mp hmem)
  · split at h
    · obtain rfl := Option.some.inj h
      exact hone _ (List.mem_singleton.mp hmem)
    · dsimp only at h
      split at h
      · cases h
      · obtain rfl := Option.some.inj h
        rcases List.mem_append.mp hmem with hmem | hmem
        · obtain ⟨finding, -, rfl⟩ := List.mem_map.mp hmem
          exact hof _ rfl
        · exact hone _ (List.mem_singleton.mp hmem)
      · obtain rfl := Option.some.inj h
        rcases List.mem_append.mp hmem with hmem | hmem
        · obtain ⟨finding, -, rfl⟩ := List.mem_map.mp hmem
          exact hof _ rfl
        · obtain ⟨record, -, rfl⟩ := List.mem_map.mp hmem
          exact hof _ rfl

/-- Only a step that derives nothing is reported as an unknown verb. -/
theorem underived_of_reports {compiler : Compiler} (h : reports compiler text uri = some found)
    (hmem : report ∈ found) (hcode : report.diagnostic.code = unknownVerb) :
    ∃ lines line, tokenize text = .ok lines ∧
      line ∈ lines ∧ report = .ofDiagnostic (compiler.diagnostic (.underived line)) := by
  have hone : ∀ message, report ≠ .compileError message := by
    rintro message rfl
    have hne : codes "compile-error" ≠ unknownVerb := by decide
    exact hne hcode
  unfold reports at h
  cases htokens : tokenize text with
  | error message =>
    simp only [htokens] at h
    obtain rfl := Option.some.inj h
    exact absurd (List.mem_singleton.mp hmem) (hone _)
  | ok lines =>
    simp only [htokens] at h
    cases hlower : compiler.lower lines uri with
    | error message =>
      simp only [hlower] at h
      obtain rfl := Option.some.inj h
      exact absurd (List.mem_singleton.mp hmem) (hone _)
    | ok module =>
      simp only [hlower] at h
      have hcore : ∀ finding ∈ module.findings,
          report = .ofDiagnostic (compiler.diagnostic finding) →
            ∃ lines' line, Except.ok lines = (.ok lines' : Except Text (List Line)) ∧
              line ∈ lines' ∧ report = .ofDiagnostic (compiler.diagnostic (.underived line)) := by
        intro finding hfinding hreport
        cases finding with
        | underived line =>
          exact ⟨lines, line, rfl, compiler.mem_of_underived lines uri module line hlower hfinding,
            hreport⟩
        | other diagnostic hother =>
          rw [hreport] at hcode
          exact absurd hcode hother
      cases hextensions : module.extensions with
      | error fault =>
        cases fault with
        | raised =>
          simp only [hextensions] at h
          cases h
        | refused message =>
          simp only [hextensions] at h
          obtain rfl := Option.some.inj h
          rcases List.mem_append.mp hmem with hmem | hmem
          · obtain ⟨finding, hfinding, hreport⟩ := List.mem_map.mp hmem
            exact hcore finding hfinding hreport.symm
          · exact absurd (List.mem_singleton.mp hmem) (hone _)
      | ok records =>
        simp only [hextensions] at h
        obtain rfl := Option.some.inj h
        rcases List.mem_append.mp hmem with hmem | hmem
        · obtain ⟨finding, hfinding, hreport⟩ := List.mem_map.mp hmem
          exact hcore finding hfinding hreport.symm
        · -- The code of a record has a slash in it.
          obtain ⟨record, -, rfl⟩ := List.mem_map.mp hmem
          have hslash : '/'.toNat ∈ unknownVerb := by
            rw [← hcode]
            show '/'.toNat ∈ record.extension ++ codes "/" ++ record.bare
            exact List.mem_append_left _ (List.mem_append_right _ List.mem_cons_self)
          exact absurd hslash (by decide)

/-! ### Publications and quick fixes -/

/-- **A publication** describes its text. -/
theorem describes_of_compile {compiler : Compiler} (h : compile compiler text uri = some out) :
    Describes compiler text uri out := by
  rw [compile_eq] at h
  obtain ⟨found, hfound, hplace⟩ := Option.bind_eq_some_iff.mp h
  obtain ⟨hmap, hplaced⟩ := placed_of_placeReports hplace
  refine ⟨by rw [hfound]; exact Option.some_ne_none _, by rw [hfound]; exact hmap, ?_⟩
  intro published hmem lineno subject hline hsubject
  obtain ⟨report, hreport, hdiagnostic, hrange⟩ := hplaced published hmem
  rw [hdiagnostic] at hline hsubject
  rw [lineno_of_reports hfound hreport hline, hsubject] at hrange
  exact namesToken_lineSpan hrange

/-- What is published of an unknown verb covers the first token of its line. -/
structure CoversVerb (compiler : Compiler) (text : Text) (published : Published)
    (lineno : Int) (base : Nat) (front verb back : Text) : Prop where
  line : published.diagnostic.line = some lineno
  body : lineBody text lineno = some (base, front ++ verb ++ back)
  white : ∀ code ∈ front, isWhite code = true
  first : (split (front ++ verb ++ back)).head? = some verb
  suggestion : published.diagnostic.suggestion = compiler.suggest verb
  offsets : editorOffsets text published.range =
    some (base + front.length, base + front.length + verb.length)
  slice : (text.take (base + front.length + verb.length)).drop (base + front.length) = verb

theorem coversVerb_of_compile {compiler : Compiler} (h : compile compiler text uri = some out)
    (hmem : published ∈ out) (hcode : published.diagnostic.code = unknownVerb) :
    ∃ lineno base front verb back,
      CoversVerb compiler text published lineno base front verb back := by
  rw [compile_eq] at h
  obtain ⟨found, hfound, hplace⟩ := Option.bind_eq_some_iff.mp h
  obtain ⟨report, hreport, hdiagnostic, hrange⟩ := (placed_of_placeReports hplace).2 published hmem
  rw [hdiagnostic] at hcode
  obtain ⟨lines, line, htokens, hline, rfl⟩ := underived_of_reports hfound hreport hcode
  obtain ⟨base, front, verb, back, hbody, hwhite, hfirst, hverb, hspan⟩ :=
    span_of_tokenize htokens hline
  have hrange' : lineSpan text (some line.lineno) (some verb) = some published.range := by
    rw [← hverb]
    exact hrange
  obtain ⟨before, after, htext, hbase, -, -⟩ := lineBody_split hbody
  refine ⟨line.lineno, base, front, verb, back, ?_, hbody, hwhite, hfirst, ?_,
    editorOffsets_lineSpan hspan hrange', ?_⟩
  · rw [hdiagnostic]
    rfl
  · rw [hdiagnostic, ← hverb]
    rfl
  · have hwhole : text = before ++ front ++ (verb ++ (back ++ after)) := by
      rw [htext]
      simp only [List.append_assoc]
    rw [← hbase, ← List.length_append, hwhole, ← List.length_append, ← List.append_assoc,
      List.take_left, List.drop_left]

/-- **The edit** of an unknown verb's range replaces the verb. -/
theorem fixesVerb_of_coversVerb {compiler : Compiler} {base : Nat} {front verb back : Text}
    (h : CoversVerb compiler text published lineno base front verb back) {edit : TextEdit}
    (hrange : edit.range = published.range)
    (hsuggestion : published.diagnostic.suggestion = some edit.newText) :
    FixesVerb text published edit := by
  refine ⟨lineno, base, front, verb, back, edit.newText, h.line, h.body, h.white, h.first,
    hsuggestion, h.slice, ?_⟩
  rw [TextEdit.apply, hrange, h.offsets]
  rfl

/-- Two unknown verbs at one range are one verb. -/
theorem suggestion_unique {compiler : Compiler} (h : compile compiler text uri = some out)
    {other : Published} (hmem : published ∈ out) (hother : other ∈ out)
    (hcode : published.diagnostic.code = unknownVerb) (hcode' : other.diagnostic.code = unknownVerb)
    (hrange : published.range = other.range) :
    published.diagnostic.suggestion = other.diagnostic.suggestion := by
  obtain ⟨_, base, front, verb, _, hcovers⟩ := coversVerb_of_compile h hmem hcode
  obtain ⟨_, base', front', verb', _, hcovers'⟩ := coversVerb_of_compile h hother hcode'
  have hoffsets := hcovers.offsets
  rw [hrange, hcovers'.offsets] at hoffsets
  obtain ⟨hstart, hstop⟩ := Prod.mk.inj (Option.some.inj hoffsets)
  have hverb : verb = verb' := by
    rw [← hcovers.slice, ← hcovers'.slice, hstop, hstart]
  rw [hcovers.suggestion, hcovers'.suggestion, hverb]

/-- What an action for a published diagnostic does. -/
theorem fixesVerb_of_quickFix {compiler : Compiler} {uri' : Text}
    (h : compile compiler text uri = some out) {selected : Selected}
    (haction : quickFix ⟨text, out⟩ uri' selected = some action) (hmem : published ∈ out)
    (hechoes : Echoes action.diagnostic published) :
    FixesVerb text published action.edit := by
  unfold quickFix at haction
  split at haction
  · cases haction
  · next hcode =>
    have hcode := not_not.mp hcode
    dsimp only at haction
    split at haction
    · cases haction
    · next data hdata =>
      split at haction
      · cases haction
      · next suggestion hsuggestion =>
        split at haction
        · cases haction
        · obtain rfl := Option.some.inj haction
          obtain ⟨hsame, hrange, hdata'⟩ := hechoes
          dsimp only at hsame hrange hdata'
          have hpublished : published.diagnostic.code = unknownVerb := hsame.symm.trans hcode
          obtain ⟨lineno, base, front, verb, back, hcovers⟩ :=
            coversVerb_of_compile h hmem hpublished
          refine fixesVerb_of_coversVerb hcovers hrange ?_
          rcases hdata' with hnone | hsome
          · -- The data are those of a published diagnostic with this range.
            rw [hnone] at hdata
            obtain ⟨other, hfind, rfl⟩ := Option.map_eq_some_iff.mp hdata
            have hother := List.find?_some hfind
            rw [Bool.and_eq_true, decide_eq_true_eq, decide_eq_true_eq] at hother
            have hunique := suggestion_unique h hmem (List.mem_of_find?_eq_some hfind) hpublished
              (hother.1.trans hcode) (hrange.symm.trans hother.2.symm)
            exact hunique.trans hsuggestion
          · rw [hsome] at hdata
            obtain rfl := Option.some.inj hdata
            exact hsuggestion

/-! ### Runs -/

/-- The server keeps what the editor has, and it is what the compiler finds. -/
structure InStep (compiler : Compiler) (session : Session) (editor : Editor) : Prop where
  documents : ∀ uri, session.documents uri =
    (editor uri).map fun kept => ⟨kept.1, kept.2⟩
  compiled : ∀ uri text out, editor uri = some (text, out) →
    ∃ uri', compile compiler text uri' = some out

theorem inStep_initial (compiler : Compiler) (literalSupport : Bool) :
    InStep compiler (.initial literalSupport) fun _ => none :=
  ⟨fun _ => rfl, fun _ _ _ h => nomatch h⟩

/-- **A step of publication**: server and editor stay in step. -/
theorem InStep.put {compiler : Compiler} (h : InStep compiler session editor)
    (hcompile : compile compiler text uri = some out) :
    InStep compiler (session.put uri (some ⟨text, out⟩)) fun other =>
      if other = uri then some (text, out) else editor other := by
  refine ⟨fun other => ?_, fun other text' out' hkept => ?_⟩
  · unfold Session.put
    dsimp only
    split
    · rfl
    · exact h.documents other
  · split at hkept
    · cases hkept
      exact ⟨uri, hcompile⟩
    · exact h.compiled other text' out' hkept

theorem InStep.close {compiler : Compiler} (h : InStep compiler session editor) (uri : Text) :
    InStep compiler (session.put uri none) fun other =>
      if other = uri then none else editor other := by
  refine ⟨fun other => ?_, fun other text' out' hkept => ?_⟩
  · unfold Session.put
    dsimp only
    split
    · rfl
    · exact h.documents other
  · split at hkept
    · cases hkept
    · exact h.compiled other text' out' hkept

/-- The actions that the server answers do what they are to do. -/
theorem fixesVerb_of_codeAction {compiler : Compiler} (h : InStep compiler session editor)
    {request : CodeActionRequest} {actions : List Action}
    (hactions : codeAction session request = some actions) (hmem : action ∈ actions)
    (hkept : editor request.uri = some (text, out)) (hpublished : published ∈ out)
    (hechoes : Echoes action.diagnostic published) :
    FixesVerb text published action.edit := by
  obtain ⟨uri', hcompile⟩ := h.compiled _ _ _ hkept
  have hdocument := h.documents request.uri
  rw [hkept] at hdocument
  have hnil : ∀ {actions : List Action}, some [] = some actions → action ∉ actions := by
    intro actions heq hmem
    rw [← Option.some.inj heq] at hmem
    cases hmem
  unfold codeAction at hactions
  split at hactions
  · exact absurd hmem (hnil hactions)
  · rw [hdocument] at hactions
    dsimp only [Option.map_some] at hactions
    split at hactions
    · exact absurd hmem (hnil hactions)
    · obtain ⟨given, -, rfl⟩ := Option.map_eq_some_iff.mp hactions
      obtain ⟨selected, -, haction⟩ := List.mem_filterMap.mp hmem
      exact fixesVerb_of_quickFix hcompile haction hpublished hechoes

/-- A text is published iff what is reported on it can be placed. -/
theorem publishes_iff (compiler : Compiler) (text uri : Text) :
    (∃ out, compile compiler text uri = some out) ↔
      ∃ found, reports compiler text uri = some found ∧
        ∀ report ∈ found, Encodable text report.lineno report.diagnostic.subject := by
  rw [compile_eq]
  constructor
  · rintro ⟨out, h⟩
    obtain ⟨found, hfound, hplace⟩ := Option.bind_eq_some_iff.mp h
    exact ⟨found, hfound, (placeReports_isSome text found).mp ⟨out, hplace⟩⟩
  · rintro ⟨found, hfound, hencodable⟩
    obtain ⟨out, hplace⟩ := (placeReports_isSome text found).mpr hencodable
    exact ⟨out, by rw [hfound]; exact hplace⟩

section

variable (compiler : Compiler)

variable {session : Session} {editor : Editor}

variable {version : Option Int} {message : Message} {messages : List Message}

/-- The replies to a text that is opened or changed. -/
theorem replies_of_publish {uri text : Text} {out : List Published}
    (h : compile compiler text uri = some out) :
    publish compiler session uri text version = (session.put uri (some ⟨text, out⟩),
      [.publishDiagnostics uri version out]) := by
  rw [publish, h]

/-- A text without a publication is not followed by one. -/
theorem sendable_of_publish {uri text : Text} {out : List Published}
    (h : (publish compiler session uri text version).2 = [.publishDiagnostics uri version out]) :
    ∃ found, reports compiler text uri = some found ∧
      ∀ report ∈ found, Encodable text report.lineno report.diagnostic.subject := by
  refine (publishes_iff compiler text uri).mp ?_
  unfold publish at h
  cases hcompile : compile compiler text uri with
  | none =>
    rw [hcompile] at h
    cases h
  | some out' => exact ⟨out', rfl⟩

/-- **A message** whose text can be placed has the replies that it is to have, and leaves server and
editor in step. -/
theorem answers_of_sendable (h : InStep compiler session editor)
    (hsend : Sendable compiler message) :
    Answers compiler editor message (handle compiler session message).2 ∧
      InStep compiler (handle compiler session message).1
        (editor.after message (handle compiler session message).2) := by
  cases message with
  | didOpen uri text version =>
    obtain ⟨out, hcompile⟩ := (publishes_iff compiler text uri).mpr hsend
    rw [handle, replies_of_publish compiler hcompile]
    exact ⟨⟨out, rfl, describes_of_compile hcompile⟩, h.put hcompile⟩
  | didChange uri earlier text version =>
    obtain ⟨out, hcompile⟩ := (publishes_iff compiler text uri).mpr hsend
    rw [handle, replies_of_publish compiler hcompile]
    exact ⟨⟨out, rfl, describes_of_compile hcompile⟩, h.put hcompile⟩
  | didClose uri => exact ⟨rfl, h.close uri⟩
  | codeAction request =>
    refine ⟨⟨_, rfl, ?_⟩, h⟩
    intro actions hactions action hmem text out hkept published hpublished hechoes
    exact fixesVerb_of_codeAction h hactions hmem hkept hpublished hechoes

/-- A message that has the replies that it is to have could be placed. -/
theorem sendable_of_answers
    (h : Answers compiler editor message (handle compiler session message).2) :
    Sendable compiler message := by
  cases message with
  | didOpen uri text version =>
    obtain ⟨out, hreplies, -⟩ := h
    exact sendable_of_publish compiler hreplies
  | didChange uri earlier text version =>
    obtain ⟨out, hreplies, -⟩ := h
    exact sendable_of_publish compiler hreplies
  | didClose uri => trivial
  | codeAction request => trivial

theorem faithful_run_of_sendable (h : InStep compiler session editor)
    (hsend : ∀ message ∈ messages, Sendable compiler message) :
    Faithful compiler editor messages (run compiler session messages) := by
  induction messages generalizing session editor with
  | nil => rfl
  | cons message messages ih =>
    obtain ⟨hmessage, hrest⟩ := List.forall_mem_cons.mp hsend
    obtain ⟨hanswers, hstep⟩ := answers_of_sendable compiler h hmessage
    exact ⟨_, _, rfl, hanswers, ih hstep hrest⟩

theorem sendable_of_faithful_run
    (h : Faithful compiler editor messages (run compiler session messages)) :
    ∀ message ∈ messages, Sendable compiler message := by
  induction messages generalizing session editor with
  | nil => exact fun _ hmem => nomatch hmem
  | cons message messages ih =>
    obtain ⟨first, rest, hreplies, hanswers, hrest⟩ := h
    obtain ⟨rfl, rfl⟩ := List.cons.inj hreplies
    exact List.forall_mem_cons.mpr ⟨sendable_of_answers compiler hanswers, ih hrest⟩

/-- **The editor can rely on a run** if and only if what is reported on each of its texts can be
placed. -/
theorem faithful_run_iff (literalSupport : Bool) (messages : List Message) :
    Faithful compiler (fun _ => none) messages
        (run compiler (.initial literalSupport) messages) ↔
      ∀ message ∈ messages, Sendable compiler message :=
  ⟨sendable_of_faithful_run compiler,
    faithful_run_of_sendable compiler (inStep_initial compiler literalSupport)⟩

end

/-! ### A text that is not published -/

/-- A compiler that knows no verb and has no alias for one. -/
def noVerbs : Compiler where
  lower := fun lines _ => .ok ⟨lines.map .underived, .ok []⟩
  suggest := fun _ => none
  mem_of_underived := by
    intro lines uri module line h hmem
    rw [← Except.ok.inj h] at hmem
    obtain ⟨line', hline, heq⟩ := List.mem_map.mp hmem
    rw [← Finding.underived.inj heq]
    exact hline

/-- A text whose verb has a lone surrogate in it is followed by no publication. -/
theorem not_faithful_run_surrogate : ¬Faithful noVerbs (fun _ => none)
    [.didOpen (codes "file:///a.lnpl") (codes "verb" ++ [0xd800]) (some 1)]
    (run noVerbs (.initial true)
      [.didOpen (codes "file:///a.lnpl") (codes "verb" ++ [0xd800]) (some 1)]) := by
  rintro ⟨first, rest, hreplies, ⟨out, hfirst, -⟩, -⟩
  have hnone : (run noVerbs (.initial true)
      [.didOpen (codes "file:///a.lnpl") (codes "verb" ++ [0xd800]) (some 1)]) = [[]] := by rfl
  rw [hnone] at hreplies
  rw [hfirst] at hreplies
  exact nomatch (List.cons.inj hreplies).1

end Lnpl.Lsp
