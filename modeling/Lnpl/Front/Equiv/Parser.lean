import Lnpl.Front.Parser
import Lnpl.Front.Equiv.WorkflowBody
import Lnpl.Front.Equiv.Layout

/-!
# The parser conserves the structure of its input

The run of `parse` is cut into the runs of the declarations (`opened_foldlM`).  Before its first
`spec` the lines of a workflow go to its body, and afterwards nothing does, so the results about a
body are results about every workflow of an accepted source (`structureConserved`).
-/

namespace Lnpl.Front

open Lib (bind_eq_ok pure_eq_ok)

variable {py : Python} {lines : List Line} {line : Line} {d d' : Decl}

/-! ### The lines of one declaration -/

variable {kind : DeclKind} {st' st : ParseState}

/-- A declaration that has just been opened has no lines. -/
theorem openDecl_eq (h : openDecl py kind line = .ok d) :
    d = { Decl.new kind d.name line.lineno with
      http := d.http
      on := d.on
      schedule := d.schedule
      version := d.version
      base := d.base } := by
  unfold openDecl at h
  split at h
  · exact absurd h (by simp)
  dsimp only at h
  split at h
  · split at h
    · split at h
      · rw [← Except.ok.inj h]
        rfl
      · exact absurd h (by simp)
    · rw [← Except.ok.inj h]
      rfl
  · unfold eventSource at h
    split at h
    · rw [← Except.ok.inj h]
      rfl
    · split at h
      · rw [← Except.ok.inj h]
        rfl
      · exact absurd h (by simp)
    · split at h
      · rw [← Except.ok.inj h]
        rfl
      · exact absurd h (by simp)
    · exact absurd h (by simp)
    · exact absurd h (by simp)
  · split at h
    · rw [← Except.ok.inj h]
      rfl
    · exact absurd h (by simp)
  · split at h
    · rw [← Except.ok.inj h]
      rfl
    · exact absurd h (by simp)

/-- What no line of a declaration changes. -/
structure Decl.Agrees (d d' : Decl) : Prop where
  kind : d'.kind = d.kind
  lineno : d'.lineno = d.lineno

theorem Decl.Agrees.trans {d d' d'' : Decl} (h : d.Agrees d') (h' : d'.Agrees d'') :
    d.Agrees d'' :=
  ⟨h'.kind.trans h.kind, h'.lineno.trans h.lineno⟩

theorem openClause_agrees (head : String) :
    d.Agrees (d.openClause head) ∧ (d.openClause head).body = d.body := by
  unfold Decl.openClause
  split
  · exact ⟨⟨rfl, rfl⟩, rfl⟩
  · exact ⟨⟨rfl, rfl⟩, rfl⟩

/-- A clause keyword leaves the body as it is; before any `spec` of a workflow it is `spec`. -/
theorem clauseLine_spec (h : clauseLine py d line = .ok d') :
    d.Agrees d' ∧ d'.body = d.body ∧
      (d.kind = .workflow → d.specs = [] → line.head = "spec") := by
  unfold clauseLine at h
  split at h
  · next hkind =>
    split at h
    · exact absurd h (by simp)
    · obtain rfl := Except.ok.inj h
      obtain ⟨hagrees, hbody⟩ := openClause_agrees (d := d) line.head
      exact ⟨hagrees, hbody, by simp [hkind]⟩
  · next hkind =>
    split at h
    · exact absurd h (by simp)
    · obtain rfl := Except.ok.inj h
      obtain ⟨hagrees, hbody⟩ := openClause_agrees (d := d) line.head
      exact ⟨hagrees, hbody, by simp [hkind]⟩
  · obtain ⟨d₁, hclause, h⟩ := bind_eq_ok.mp h
    obtain rfl := pure_eq_ok.mp h
    obtain ⟨hagrees, hbody⟩ := openClause_agrees (d := d₁) line.head
    unfold workflowClauseLine at hclause
    split at hclause
    · exact absurd hclause (by simp)
    split at hclause
    · next hspec =>
      obtain rfl := Except.ok.inj hclause
      exact ⟨⟨hagrees.kind, hagrees.lineno⟩, hbody, fun _ _ => hspec⟩
    · split at hclause
      · exact absurd hclause (by simp)
      · next spec hlast =>
        split at hclause
        · exact absurd hclause (by simp)
        · obtain rfl := Except.ok.inj hclause
          exact ⟨⟨hagrees.kind, hagrees.lineno⟩, hbody, fun _ hspecs => by simp [hspecs] at hlast⟩
  · exact absurd h (by simp)

variable {clause : String} {cur : Decl × Option String}

/-- A line after a clause has been opened leaves the body as it is. -/
theorem contentLine_some (h : contentLine py (d, some clause) line = .ok cur) :
    d.Agrees cur.1 ∧ cur.1.body = d.body ∧ cur.2.isSome := by
  unfold contentLine at h
  split at h
  · obtain ⟨d₁, hclause, h⟩ := bind_eq_ok.mp h
    obtain rfl := pure_eq_ok.mp h
    obtain ⟨hagrees, hbody, -⟩ := clauseLine_spec hclause
    exact ⟨hagrees, hbody, rfl⟩
  · dsimp only at h
    split at h
    · obtain ⟨d₁, hsection, h⟩ := bind_eq_ok.mp h
      obtain rfl := pure_eq_ok.mp h
      unfold sectionLine at hsection
      split at hsection
      · obtain rfl := Except.ok.inj hsection
        exact ⟨⟨rfl, rfl⟩, rfl, rfl⟩
      · split at hsection
        · exact absurd hsection (by simp)
        · obtain rfl := Except.ok.inj hsection
          exact ⟨⟨rfl, rfl⟩, rfl, rfl⟩
    · obtain rfl := Except.ok.inj h
      exact ⟨⟨rfl, rfl⟩, rfl, rfl⟩

theorem foldlM_contentLine_some (h : lines.foldlM (contentLine py) (d, some clause) = .ok cur) :
    d.Agrees cur.1 ∧ cur.1.body = d.body := by
  induction lines generalizing d clause with
  | nil =>
    obtain rfl := pure_eq_ok.mp h
    exact ⟨⟨rfl, rfl⟩, rfl⟩
  | cons l lines ih =>
    rw [List.foldlM_cons] at h
    obtain ⟨⟨d₁, clause₁⟩, hline, h⟩ := bind_eq_ok.mp h
    obtain ⟨hagrees, hbody, hsome⟩ := contentLine_some hline
    obtain ⟨clause₁, rfl⟩ := Option.isSome_iff_exists.mp hsome
    obtain ⟨hagrees', hbody'⟩ := ih h
    exact ⟨hagrees.trans hagrees', hbody'.trans hbody⟩

/-- A line while no clause is open: a clause keyword, a content line, or a line of a body. -/
theorem contentLine_none (h : contentLine py (d, none) line = .ok cur) :
    d.Agrees cur.1 ∧ (cur.2 = none → cur.1.specs = d.specs) ∧
      (d.kind = .workflow → d.specs = [] →
        if line.isSpec then cur.2.isSome ∧ cur.1.body = d.body
        else cur.2 = none ∧ appendWorkflowItem py d.body line = .ok cur.1.body) := by
  unfold contentLine at h
  split at h
  · next hclause =>
    obtain ⟨d₁, hline, h⟩ := bind_eq_ok.mp h
    obtain rfl := pure_eq_ok.mp h
    obtain ⟨hagrees, hbody, hspec⟩ := clauseLine_spec hline
    refine ⟨hagrees, by simp, fun hkind hspecs => ?_⟩
    have : line.isSpec := by simp [Line.isSpec, hspec hkind hspecs, hclause.2]
    rw [if_pos this]
    exact ⟨rfl, hbody⟩
  · next hclause =>
    have hnospec : ¬line.isSpec := by
      intro hspec
      simp only [Line.isSpec, decide_eq_true_eq] at hspec
      exact hclause ⟨by simp [hspec.1, keywordsClause], hspec.2⟩
    dsimp only at h
    split at h
    · obtain ⟨body, hbody, h⟩ := bind_eq_ok.mp h
      obtain rfl := pure_eq_ok.mp h
      refine ⟨⟨rfl, rfl⟩, fun _ => rfl, fun _ _ => ?_⟩
      rw [if_neg hnospec]
      exact ⟨rfl, hbody⟩
    · next hkind =>
      obtain rfl := Except.ok.inj h
      exact ⟨⟨rfl, rfl⟩, fun _ => rfl, by simp [hkind]⟩
    · next hkind =>
      obtain rfl := Except.ok.inj h
      exact ⟨⟨rfl, rfl⟩, fun _ => rfl, by simp [hkind]⟩
    · next hkind =>
      split at h
      · obtain rfl := Except.ok.inj h
        exact ⟨⟨rfl, rfl⟩, fun _ => rfl, by simp [hkind]⟩
      · exact absurd h (by simp)
    · exact absurd h (by simp)

/-- The lines of a workflow before its first `spec` are the lines that its body is built from. -/
theorem foldlM_contentLine (h : lines.foldlM (contentLine py) (d, none) = .ok cur) :
    d.Agrees cur.1 ∧ (d.kind = .workflow → d.specs = [] →
      (bodyLines lines).foldlM (appendWorkflowItem py) d.body = .ok cur.1.body) := by
  induction lines generalizing d with
  | nil =>
    obtain rfl := pure_eq_ok.mp h
    exact ⟨⟨rfl, rfl⟩, fun _ _ => rfl⟩
  | cons l lines ih =>
    rw [List.foldlM_cons] at h
    obtain ⟨⟨d₁, clause⟩, hline, h⟩ := bind_eq_ok.mp h
    obtain ⟨hagrees, hspecs, hbody⟩ := contentLine_none hline
    cases clause with
    | some clause =>
      obtain ⟨hagrees', hbody'⟩ := foldlM_contentLine_some h
      refine ⟨hagrees.trans hagrees', fun hkind hempty => ?_⟩
      have hstep := hbody hkind hempty
      split at hstep
      · next hspec =>
        rw [bodyLines, List.takeWhile_cons_of_neg (by simp [hspec]), List.foldlM_nil, hbody',
          hstep.2]
        rfl
      · exact absurd hstep.1 (by simp)
    | none =>
      obtain ⟨hagrees', hrest⟩ := ih h
      refine ⟨hagrees.trans hagrees', fun hkind hempty => ?_⟩
      have hstep := hbody hkind hempty
      split at hstep
      · exact absurd hstep.1 (by simp)
      · next hspec =>
        have hrest := hrest (hagrees.kind.trans hkind) ((hspecs rfl).trans hempty)
        rw [bodyLines, List.takeWhile_cons_of_pos (by simpa using hspec), List.foldlM_cons,
          hstep.2]
        exact hrest

/-! ### The declarations of a source -/

/-- A declaration as its lines have made it, before the end of the source. -/
def Opened (py : Python) (source : Line × List Line) (d : Decl) : Prop :=
  ∃ kind d₀ clause, DeclKind.ofWord? source.1.head = some kind ∧
    openDecl py kind source.1 = .ok d₀ ∧
    source.2.foldlM (contentLine py) (d₀, none) = .ok (d, clause)

def ParseState.decls (st : ParseState) : List Decl := st.done ++ (st.cur.map Prod.fst).toList

/-- The run of the parser is the runs of the declarations, one after the other. -/
theorem opened_foldlM {done : List Decl} {clause : Option String}
    (h : lines.foldlM (parseLine py) ⟨done, some (d, clause)⟩ = .ok st') :
    ∃ d' clause' ds,
      (lines.takeWhile fun l => !l.isTop).foldlM (contentLine py) (d, clause) = .ok (d', clause') ∧
      List.Forall₂ (Opened py) (declLines lines) ds ∧ st'.decls = done ++ d' :: ds := by
  induction lines generalizing done d clause with
  | nil =>
    obtain rfl := pure_eq_ok.mp h
    exact ⟨d, clause, [], rfl, .nil, rfl⟩
  | cons l lines ih =>
    rw [List.foldlM_cons] at h
    obtain ⟨st₁, hline, h⟩ := bind_eq_ok.mp h
    unfold parseLine at hline
    split at hline
    · next kind hkind =>
      obtain ⟨d₀, hopen, hline⟩ := bind_eq_ok.mp hline
      obtain rfl := pure_eq_ok.mp hline
      obtain ⟨d', clause', ds, hrun, hopened, hdecls⟩ := ih h
      have htop : l.isTop := by simp [Line.isTop, hkind]
      refine ⟨d, clause, d' :: ds, ?_, ?_, ?_⟩
      · rw [List.takeWhile_cons_of_neg (by simp [htop])]
        rfl
      · rw [declLines, if_pos htop]
        exact .cons ⟨kind, d₀, clause', hkind, hopen, hrun⟩ hopened
      · rw [hdecls]
        simp
    · exact absurd hline (by simp)
    · next cur hkind hcur =>
      obtain ⟨⟨d₁, clause₁⟩, hcontent, hline⟩ := bind_eq_ok.mp hline
      obtain rfl := pure_eq_ok.mp hline
      obtain ⟨d', clause', ds, hrun, hopened, hdecls⟩ := ih h
      have htop : ¬l.isTop := by simp [Line.isTop, hkind]
      obtain rfl := Option.some.inj hcur
      refine ⟨d', clause', ds, ?_, ?_, hdecls⟩
      · rw [List.takeWhile_cons_of_pos (by simpa using htop), List.foldlM_cons, hcontent]
        exact hrun
      · rw [declLines, if_neg htop]
        exact hopened

/-- A source that is read begins with a declaration, and its declarations are read from their
lines. -/
theorem opened_parse (h : lines.foldlM (parseLine py) ⟨[], none⟩ = .ok st) :
    List.Forall₂ (Opened py) (declLines lines) st.decls ∧ ∀ l ∈ lines.head?, l.isTop := by
  cases lines with
  | nil =>
    obtain rfl := pure_eq_ok.mp h
    exact ⟨.nil, by simp⟩
  | cons l lines =>
    rw [List.foldlM_cons] at h
    obtain ⟨st₁, hline, h⟩ := bind_eq_ok.mp h
    unfold parseLine at hline
    split at hline
    · next kind hkind =>
      obtain ⟨d₀, hopen, hline⟩ := bind_eq_ok.mp hline
      obtain rfl := pure_eq_ok.mp hline
      obtain ⟨d', clause', ds, hrun, hopened, hdecls⟩ := opened_foldlM h
      have htop : l.isTop := by simp [Line.isTop, hkind]
      refine ⟨?_, by simpa using htop⟩
      rw [declLines, if_pos htop, hdecls]
      exact .cons ⟨kind, d₀, clause', hkind, hopen, hrun⟩ hopened
    · exact absurd hline (by simp)
    · next hcur => exact absurd hcur (by simp)

/-- The declarations hold all lines from the first header on. -/
theorem flatMap_declLines (lines : List Line) :
    (declLines lines).flatMap (fun decl => decl.1 :: decl.2) =
      lines.dropWhile fun l => !l.isTop := by
  induction lines with
  | nil => rfl
  | cons l lines ih =>
    by_cases htop : l.isTop
    · rw [declLines, if_pos htop, List.dropWhile_cons_of_neg (by simp [htop]), List.flatMap_cons,
        ih, List.cons_append, List.takeWhile_append_dropWhile]
    · rw [declLines, if_neg htop, List.dropWhile_cons_of_pos (by simpa using htop), ih]

theorem DeclKind.word_of_ofWord? {w : String} (h : DeclKind.ofWord? w = some kind) :
    kind.word = w := by
  simpa using List.find?_some h

/-- The body of a finished workflow conserves the lines before its first `spec`. -/
theorem conserved_finishDecl {source : Line × List Line} (hopened : Opened py source d)
    (h : finishDecl d = .ok d') : d'.lineno = source.1.lineno ∧ d'.kind.word = source.1.head ∧
      (d'.kind = .workflow → Conserved (bodyLines source.2) d'.body.items) := by
  obtain ⟨kind, d₀, clause, hword, hopen, hrun⟩ := hopened
  have hnew := openDecl_eq hopen
  obtain ⟨hagrees, hbody⟩ := foldlM_contentLine hrun
  obtain ⟨items, hitems, h⟩ := bind_eq_ok.mp h
  obtain rfl := pure_eq_ok.mp h
  have hkind : d₀.kind = kind := by rw [hnew]; rfl
  have hlineno : d₀.lineno = source.1.lineno := by rw [hnew]; rfl
  have hspecs : d₀.specs = [] := by rw [hnew]; rfl
  have hempty : d₀.body = Body.empty := by rw [hnew]; rfl
  refine ⟨hagrees.lineno.trans hlineno, ?_, fun hworkflow => ?_⟩
  · rw [← DeclKind.word_of_ofWord? hword, ← hkind, ← hagrees.kind]
  · have hbody := hbody (hagrees.kind.symm.trans hworkflow) hspecs
    rw [hempty] at hbody
    have hbuilt := built_foldlM built_empty hbody
    have hconserved := conserved_finishBody hbuilt hitems
    rwa [List.append_nil, List.reverse_reverse] at hconserved

/-! ### Layout -/

theorem openClause_flat (d : Decl) (head : String) :
    (d.openClause head).flat = d.flat.openClause head := by
  have hany : d.flat.clauses.any (fun clause => clause.1 = head) =
      d.clauses.any fun clause => clause.1 = head := by
    simp [Decl.flat, List.any_map, Function.comp_def]
  unfold Decl.openClause
  rw [hany]
  split
  · rfl
  · simp [Decl.flat]

theorem appendClause_flat (d : Decl) (head : String) (line : Line) :
    (d.appendClause head line).flat = d.flat.appendClause head line.flat := by
  simp only [Decl.appendClause, Decl.flat, List.map_map]
  congr 1
  apply List.map_congr_left
  intro clause _
  simp only [Function.comp_apply]
  split <;> simp

theorem setSpec_flat (d : Decl) (spec : Spec) :
    (d.setSpec spec).flat = d.flat.setSpec spec.flat := by
  simp [Decl.setSpec, Decl.flat]

theorem append_flat (spec : Spec) (head : String) (line : Line) :
    (spec.append head line).flat = spec.flat.append head line.flat := by
  unfold Spec.append
  split
  · simp [Spec.flat]
  · split <;> simp [Spec.flat]

theorem getLast?_specs_flat (d : Decl) :
    d.flat.specs.getLast? = d.specs.getLast?.map Spec.flat := by
  simp [Decl.flat]

theorem flat_clauseLine (h : clauseLine py d line = .ok d') :
    clauseLine py d.flat line.flat = .ok d'.flat := by
  unfold clauseLine at h ⊢
  rw [show d.flat.kind = d.kind from rfl, Line.flat_head]
  split at h
  · split at h
    · exact absurd h (by simp)
    · next hfield =>
      obtain rfl := Except.ok.inj h
      simp [hfield, openClause_flat]
  · split at h
    · exact absurd h (by simp)
    · next hservice =>
      obtain rfl := Except.ok.inj h
      simp [hservice, openClause_flat]
  · obtain ⟨d₁, hclause, h⟩ := bind_eq_ok.mp h
    obtain rfl := pure_eq_ok.mp h
    refine bind_eq_ok.mpr ⟨d₁.flat, ?_, by rw [openClause_flat]; rfl⟩
    unfold workflowClauseLine at hclause ⊢
    rw [Line.flat_head, getLast?_specs_flat]
    split at hclause
    · exact absurd hclause (by simp)
    next hworkflow =>
    rw [if_neg hworkflow]
    split at hclause
    · next hspec =>
      obtain rfl := Except.ok.inj hclause
      rw [if_pos hspec]
      simp [Decl.flat, Spec.flat]
    next hspec =>
    rw [if_neg hspec]
    split at hclause
    · exact absurd hclause (by simp)
    next spec hlast =>
    rw [hlast]
    dsimp only [Option.map_some]
    split at hclause
    · exact absurd hclause (by simp)
    next hopened =>
    obtain rfl := Except.ok.inj hclause
    have hopened' : line.head ∉ spec.flat.opened := hopened
    rw [if_neg hopened', setSpec_flat]
    rfl
  · exact absurd h (by simp)

theorem flat_sectionLine (h : sectionLine d clause line = .ok d') :
    sectionLine d.flat clause line.flat = .ok d'.flat := by
  unfold sectionLine at h ⊢
  rw [getLast?_specs_flat]
  split at h
  · next hlast =>
    obtain rfl := Except.ok.inj h
    rw [hlast, appendClause_flat]
    rfl
  · next spec hlast =>
    rw [hlast]
    dsimp only [Option.map_some]
    split at h
    · exact absurd h (by simp)
    · obtain rfl := Except.ok.inj h
      rw [if_neg (by simp [Spec.flat]), setSpec_flat, append_flat]

theorem flat_contentLine {cur' : Decl × Option String} (h : contentLine py cur line = .ok cur') :
    contentLine py (cur.1.flat, cur.2) line.flat = .ok (cur'.1.flat, cur'.2) := by
  unfold contentLine at h ⊢
  rw [Line.flat_head, Line.flat_rest]
  split at h
  · next hclause =>
    obtain ⟨d₁, hline, h⟩ := bind_eq_ok.mp h
    obtain rfl := pure_eq_ok.mp h
    rw [if_pos hclause]
    exact bind_eq_ok.mpr ⟨d₁.flat, flat_clauseLine hline, rfl⟩
  next hclause =>
  rw [if_neg hclause]
  dsimp only
  rw [show cur.1.flat.kind = cur.1.kind from rfl, show cur.1.flat.http = cur.1.http from rfl]
  split at h
  · split at h
    · next hkind =>
      obtain ⟨body, hbody, h⟩ := bind_eq_ok.mp h
      obtain rfl := pure_eq_ok.mp h
      exact bind_eq_ok.mpr ⟨body.flat, flat_appendWorkflowItem hbody, rfl⟩
    · next hkind =>
      obtain rfl := Except.ok.inj h
      simp [hkind, Decl.flat]
    · next hkind =>
      obtain rfl := Except.ok.inj h
      simp [hkind, Decl.flat]
    · next hkind =>
      split at h
      · next hhttp =>
        obtain rfl := Except.ok.inj h
        simp [hkind, hhttp, Decl.flat]
      · exact absurd h (by simp)
    · exact absurd h (by simp)
  · split at h
    · next hsection =>
      obtain ⟨d₁, hline, h⟩ := bind_eq_ok.mp h
      obtain rfl := pure_eq_ok.mp h
      rw [if_pos hsection]
      exact bind_eq_ok.mpr ⟨d₁.flat, flat_sectionLine hline, rfl⟩
    · next hsection =>
      obtain rfl := Except.ok.inj h
      rw [if_neg hsection, appendClause_flat]

/-- The state of the parser without its columns. -/
def ParseState.flat (st : ParseState) : ParseState :=
  ⟨st.done.map Decl.flat, st.cur.map fun cur => (cur.1.flat, cur.2)⟩

theorem decls_flat (st : ParseState) : st.flat.decls = st.decls.map Decl.flat := by
  cases hcur : st.cur <;> simp [ParseState.decls, ParseState.flat, hcur]

theorem flat_parseLine (h : parseLine py st line = .ok st') :
    parseLine py st.flat line.flat = .ok st'.flat := by
  unfold parseLine at h ⊢
  rw [Line.flat_head]
  split at h
  · next kind hkind =>
    obtain ⟨d₀, hopen, h⟩ := bind_eq_ok.mp h
    obtain rfl := pure_eq_ok.mp h
    have hnew : d₀.flat = d₀ := by
      rw [openDecl_eq hopen]
      rfl
    rw [hkind]
    refine bind_eq_ok.mpr ⟨d₀, hopen, ?_⟩
    cases hcur : st.cur <;> simp [ParseState.flat, hcur, hnew, pure, Except.pure]
  · exact absurd h (by simp)
  · next cur hkind hcur =>
    obtain ⟨cur', hcontent, h⟩ := bind_eq_ok.mp h
    obtain rfl := pure_eq_ok.mp h
    have hflat := flat_contentLine hcontent
    simp only [hkind, ParseState.flat, hcur, Option.map_some]
    exact bind_eq_ok.mpr ⟨_, hflat, rfl⟩

theorem flat_finishDecl (h : finishDecl d = .ok d') : finishDecl d.flat = .ok d'.flat := by
  obtain ⟨items, hitems, h⟩ := bind_eq_ok.mp h
  obtain rfl := pure_eq_ok.mp h
  refine bind_eq_ok.mpr ⟨items.map Item.flat, flat_finishBody hitems, ?_⟩
  simp [Decl.flat, Body.flat, Body.empty, Spec.flat, Spec.finish, pure, Except.pure,
    Function.comp_def]

/-- **Layout**: a source that is accepted is accepted without its columns, with the same tree. -/
theorem flat_parse {decls : List Decl} (h : parse py lines = .ok decls) :
    parse py (lines.map Line.flat) = .ok (decls.map Decl.flat) := by
  obtain ⟨st, hrun, hfinish⟩ := bind_eq_ok.mp h
  have hflat := Lib.foldlM_map (k := ParseState.flat) (fun _ _ _ => flat_parseLine) hrun
  refine bind_eq_ok.mpr ⟨st.flat, hflat, ?_⟩
  have hdecls := Lib.mapM_map (f := finishDecl) (fun _ _ => flat_finishDecl) hfinish
  rw [← hdecls]
  exact congrArg (List.mapM finishDecl) (decls_flat st)

/-! ### The claim -/

/-- **Structure conservation**: the lines of every workflow body of an accepted source are in its
tree, once and where they are written, and the layout decides nothing. -/
theorem structureConserved {decls : List Decl} (h : parse py lines = .ok decls) :
    StructureConserved py lines decls where
  covered := by
    obtain ⟨st, hrun, -⟩ := bind_eq_ok.mp h
    obtain ⟨-, htop⟩ := opened_parse hrun
    rw [flatMap_declLines]
    cases lines with
    | nil => rfl
    | cons l lines => rw [List.dropWhile_cons_of_neg (by simp [htop l (by simp)])]
  bodies := by
    obtain ⟨st, hrun, hfinish⟩ := bind_eq_ok.mp h
    obtain ⟨hopened, -⟩ := opened_parse hrun
    exact Lib.forall₂_mapM hopened hfinish fun source d d' => conserved_finishDecl
  flat := flat_parse h
  layout lines' decls' hlines h' := by
    have hflat := flat_parse h'
    rw [hlines, flat_parse h] at hflat
    exact (Except.ok.inj hflat).symm

/-- A line of an example source. -/
def sourceLine (lineno indent : Nat) (head : String) (rest : List String) : Line :=
  ⟨lineno, head :: rest, indent, List.cons_ne_nil head rest⟩

/-- A guard with an alternative over a `parallel` block, a `pipeline` for its `otherwise`, a step
after it and a `spec`. -/
def checkoutLines : List Line :=
  [sourceLine 1 0 "workflow" ["Checkout"],
    sourceLine 2 2 "when" ["order.total", ">=", "90"],
    sourceLine 3 2 "or" ["vip", "is-numeric"],
    sourceLine 4 4 "parallel" [],
    sourceLine 5 6 "charge" ["order"],
    sourceLine 6 6 "or" ["notify"],
    sourceLine 7 4 "merge" [],
    sourceLine 8 2 "otherwise" [],
    sourceLine 9 4 "pipeline" ["refuse"],
    sourceLine 10 6 "log" ["order"],
    sourceLine 11 2 "repeat" ["2"],
    sourceLine 12 4 "poll" [],
    sourceLine 13 2 "spec" [],
    sourceLine 14 4 "given" [],
    sourceLine 15 6 "order.total" ["=", "9"]]

theorem structureConserved_checkoutLines :
    ∃ decls, StructureConserved Python.ascii checkoutLines decls := by
  have haccepted : (parse Python.ascii checkoutLines).isOk = true := by decide +kernel
  cases h : parse Python.ascii checkoutLines with
  | ok decls => exact ⟨decls, structureConserved h⟩
  | error e => simp [h, Except.isOk, Except.toBool] at haccepted

end Lnpl.Front
