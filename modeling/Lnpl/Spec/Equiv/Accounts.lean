import Lnpl.Spec.Equiv.Expectations
import Lnpl.Spec.Equiv.Given

/-!
# The runner accounts for every expectation

`run_manifest` on what `extract` accepts returns a report or raises a `SpecError`, refuses no given
line, and gives every expectation its verdict, exactly if every word behind a test can be read
(`accountable_iff`).  The count of the verdicts holds of every report (`counts_of_runManifest`).
-/

namespace Lnpl.Spec

open Front (Decl)
open Interp (Exc Document)
open Lib

variable {runner : Runner} {compiled : Compiled}

/-! ### Cases -/

/-- The expectations of a run raise a `SpecError` only iff none is misread before one is refused. -/
theorem expectations_only_iff {c : Case} {obs : Observed} {acc : Report × Bool} :
    (∀ e, c.expect.foldlM (runExpectation runner compiled c obs) acc = .error e →
      e.isSpecError = true) ↔
      NoneBefore (Refused runner compiled obs) (Misread runner compiled obs) c.expect := by
  apply raises_only_iff
  · intro phrase _ acc
    rw [(judged_runExpectation c acc).misread]
    simp
  · intro phrase _ acc hgood
    exact (judged_runExpectation c acc).refused_iff hgood

variable {obs : Observed} {report' : Report} {decls : List Decl}

/-- If none is misread before one is refused, they raise iff one is refused. -/
theorem expectations_error_iff {c : Case} {acc : Report × Bool}
    (h : NoneBefore (Refused runner compiled obs) (Misread runner compiled obs) c.expect) :
    (∃ e, c.expect.foldlM (runExpectation runner compiled c obs) acc = .error e) ↔
      ∃ phrase ∈ c.expect, Refused runner compiled obs phrase := by
  apply @exists_error_iff _ _ _ _ (fun e => e.isSpecError = true) _ _ _ _ _ _ h
  · intro phrase _ acc
    rw [(judged_runExpectation c acc).misread]
    simp
  · intro phrase _ acc hgood
    exact (judged_runExpectation c acc).refused_iff hgood

/-- What a case starts from has been built. -/
def Builds (runner : Runner) (doc : Document) (c : Case) : Prop :=
  ∃ lines start, classify runner doc c.given = .ok lines ∧
    build runner doc c.workflow lines = .ok start

/-- How the run of a case that can be built ends. -/
inductive Ends (runner : Runner) (compiled : Compiled) (t : Trial) : Prop where
  | unpinned (entity field : String)
      (h : caseRun runner compiled t = .ok (.unpinned entity field))
      (hnever : ∀ lines start, ¬ Executes runner compiled.doc t.1 lines start)
  | interpreted (lines : List Given) (start : Start)
      (hexecutes : Executes runner compiled.doc t.1 lines start)
      (honly : ∀ lines' start', Executes runner compiled.doc t.1 lines' start' → start' = start)
      (h : caseRun runner compiled t =
        match interpret runner compiled t start with
        | .ok result session => .ok (.ran (observed compiled t start result session))
        | .error (.run e) _ => .ok (.ended e.message)
        | .error e _ => .error (.exc e))

theorem ends_of_builds {t : Trial} (h : Builds runner compiled.doc t.1) :
    Ends runner compiled t := by
  obtain ⟨lines, start, hlines, hstart⟩ := h
  have hrun : caseRun runner compiled t =
      (unpinnedGenerated compiled.doc t.1.workflow start.context).elim
        (match interpret runner compiled t start with
        | .ok result session => .ok (.ran (observed compiled t start result session))
        | .error (.run e) _ => .ok (.ended e.message)
        | .error e _ => .error (.exc e))
        fun field => .ok (.unpinned field.1 field.2) := by
    unfold caseRun
    rw [hlines]
    show ((build runner compiled.doc t.1.workflow lines).mapError Raised.fault >>= _) = _
    rw [hstart]
    show (pure start >>= _) = _
    rw [pure_bind]
    cases unpinnedGenerated compiled.doc t.1.workflow start.context
    all_goals rfl
  have hsame : ∀ lines' start', Executes runner compiled.doc t.1 lines' start' →
      start' = start := by
    rintro lines' start' ⟨hlines', hstart', -⟩
    obtain rfl : lines = lines' := Except.ok.inj (hlines.symm.trans hlines')
    exact (Except.ok.inj (hstart.symm.trans hstart')).symm
  cases hpinned : unpinnedGenerated compiled.doc t.1.workflow start.context with
  | some field =>
    rw [hpinned] at hrun
    refine .unpinned field.1 field.2 hrun ?_
    intro lines' start' hexecutes
    have hnone := hexecutes.2.2
    rw [hsame lines' start' hexecutes, hpinned] at hnone
    cases hnone
  | none =>
    rw [hpinned] at hrun
    exact .interpreted lines start ⟨hlines, hstart, hpinned⟩ hsame hrun

/-- A run of an interpreted case, by the one start that it has. -/
theorem runs_iff {t : Trial} {lines : List Given} {start : Start}
    (hexecutes : Executes runner compiled.doc t.1 lines start)
    (honly : ∀ lines' start', Executes runner compiled.doc t.1 lines' start' → start' = start) :
    Runs runner compiled t obs ↔ ∃ result session,
      interpret runner compiled t start = .ok result session ∧
        obs = observed compiled t start result session := by
  constructor
  · rintro ⟨lines', start', result, session, hexecutes', hrun, rfl⟩
    obtain rfl := honly lines' start' hexecutes'
    exact ⟨result, session, hrun, rfl⟩
  · rintro ⟨result, session, hrun, rfl⟩
    exact ⟨lines, start, result, session, hexecutes, hrun, rfl⟩

/-- A case breaks exactly if it raises anything but a `SpecError`, and refuses exactly if it raises
one, whatever has been reported before it. -/
structure CaseJudged (runner : Runner) (compiled : Compiled) (t : Trial) (report : Report) : Prop where
  breaks : Breaks runner compiled t ↔
    ∃ e, runCase runner compiled report t = .error e ∧ ¬ e.isSpecError = true
  refuses : ¬ Breaks runner compiled t →
    (Refuses runner compiled t ↔ ∃ e, runCase runner compiled report t = .error e)

/-- A case that is reported without a run neither breaks nor refuses. -/
theorem caseJudged_of_ok {t : Trial} {report : Report}
    (h : runCase runner compiled report t = .ok report') (hbreaks : ¬ Breaks runner compiled t)
    (hrefuses : ¬ Refuses runner compiled t) :
    CaseJudged runner compiled t report := by
  constructor
  · refine ⟨fun hb => absurd hb hbreaks, ?_⟩
    rintro ⟨e, he, -⟩
    rw [h] at he
    cases he
  · intro _
    refine ⟨fun hr => absurd hr hrefuses, ?_⟩
    rintro ⟨e, he⟩
    rw [h] at he
    cases he

theorem caseJudged_of_unpinned {t : Trial} {report : Report} {entity field : String}
    (h : caseRun runner compiled t = .ok (.unpinned entity field))
    (hnever : ∀ lines start, ¬ Executes runner compiled.doc t.1 lines start) :
    CaseJudged runner compiled t report := by
  have hreport : ∃ report', runCase runner compiled report t = .ok report' := by
    unfold runCase
    rw [h]
    exact ⟨_, rfl⟩
  obtain ⟨report', hreport⟩ := hreport
  apply caseJudged_of_ok hreport
  · rintro (⟨lines, start, _, _, hexecutes, _⟩ | ⟨obs, hruns, _⟩)
    · exact hnever lines start hexecutes
    · obtain ⟨lines, start, _, _, hexecutes, _⟩ := hruns
      exact hnever lines start hexecutes
  · rintro ⟨obs, ⟨lines, start, _, _, hexecutes, _⟩, _⟩
    exact hnever lines start hexecutes

section

variable {t : Trial} {report : Report} {lines : List Given} {start : Start}
  (hexecutes : Executes runner compiled.doc t.1 lines start)
  (honly : ∀ lines' start', Executes runner compiled.doc t.1 lines' start' → start' = start)
include hexecutes honly

variable {result : Interp.Result} {session : Interp.Session Interp.FakeRows Interp.FakeStore Unit}

theorem breaks_iff_of_ok (hrun : interpret runner compiled t start = .ok result session) :
    Breaks runner compiled t ↔
      ¬ NoneBefore (Refused runner compiled (observed compiled t start result session))
        (Misread runner compiled (observed compiled t start result session)) t.1.expect := by
  unfold Breaks
  simp only [runs_iff hexecutes honly, hrun]
  constructor
  · rintro (⟨lines', start', e, s, hexecutes', hfault, -⟩ | ⟨obs, ⟨_, _, ⟨⟩, rfl⟩, hnone⟩)
    · obtain rfl := honly lines' start' hexecutes'
      rw [hrun] at hfault
      cases hfault
    · exact hnone
  · intro hnone
    exact .inr ⟨_, ⟨result, session, rfl, rfl⟩, hnone⟩

theorem refuses_iff_of_ok (hrun : interpret runner compiled t start = .ok result session) :
    Refuses runner compiled t ↔
      ∃ phrase ∈ t.1.expect,
        Refused runner compiled (observed compiled t start result session) phrase := by
  unfold Refuses
  simp only [runs_iff hexecutes honly, hrun]
  constructor
  · rintro ⟨obs, ⟨_, _, ⟨⟩, rfl⟩, hphrase⟩
    exact hphrase
  · intro hphrase
    exact ⟨_, ⟨result, session, rfl, rfl⟩, hphrase⟩

variable {e : Exc}

theorem not_runs_of_error (hrun : interpret runner compiled t start = .error e session)
    (obs : Observed) :
    ¬ Runs runner compiled t obs := by
  rw [runs_iff hexecutes honly, hrun]
  rintro ⟨_, _, ⟨⟩, _⟩

theorem caseJudged_of_ran (hrun : interpret runner compiled t start = .ok result session)
    (h : caseRun runner compiled t = .ok (.ran (observed compiled t start result session))) :
    CaseJudged runner compiled t report := by
  have hbreaks := breaks_iff_of_ok hexecutes honly hrun
  have hrefuses := refuses_iff_of_ok hexecutes honly hrun
  generalize observed compiled t start result session = obs at h hbreaks hrefuses
  have hcase : ∀ e, runCase runner compiled report t = .error e ↔
      t.1.expect.foldlM (runExpectation runner compiled t.1 obs) (report, false) = .error e := by
    intro e
    unfold runCase
    rw [h]
    dsimp only [Bind.bind, Except.bind]
    cases t.1.expect.foldlM (runExpectation runner compiled t.1 obs) (report, false) with
    | error e' => rw [Except.error.injEq, Except.error.injEq]
    | ok acc => exact ⟨nofun, nofun⟩
  constructor
  · rw [hbreaks, ← @expectations_only_iff runner compiled t.1 obs (report, false)]
    simp only [hcase, not_forall]
    exact ⟨fun ⟨e, he, hspec⟩ => ⟨e, he, hspec⟩, fun ⟨e, he, hspec⟩ => ⟨e, he, hspec⟩⟩
  · intro hgood
    rw [hbreaks, not_not] at hgood
    simp only [hrefuses, hcase]
    exact (expectations_error_iff hgood).symm

theorem caseJudged_of_error (hrun : interpret runner compiled t start = .error e session)
    (h : caseRun runner compiled t =
      match e with
      | .run e => .ok (.ended e.message)
      | e => .error (.exc e)) :
    CaseJudged runner compiled t report := by
  have hruns := not_runs_of_error hexecutes honly hrun
  have hrefuses : ¬ Refuses runner compiled t := fun ⟨obs, hobs, _⟩ => hruns obs hobs
  have hbreaks : Breaks runner compiled t ↔ e.isRunError = false := by
    constructor
    · rintro (⟨lines', start', e', s, hexecutes', hfault, hother⟩ | ⟨obs, hobs, _⟩)
      · obtain rfl := honly lines' start' hexecutes'
        rw [hrun] at hfault
        cases hfault
        exact hother
      · exact absurd hobs (hruns obs)
    · intro hother
      exact .inl ⟨lines, start, e, session, hexecutes, hrun, hother⟩
  cases e with
  | run e =>
    have hreport : ∃ report', runCase runner compiled report t = .ok report' := by
      unfold runCase
      rw [h]
      exact ⟨_, rfl⟩
    obtain ⟨report', hreport⟩ := hreport
    exact caseJudged_of_ok hreport (by simp [hbreaks, Exc.isRunError]) hrefuses
  | driver cls message | other cls =>
    have hraised : ∃ e, runCase runner compiled report t = .error (.exc e) := by
      unfold runCase
      rw [h]
      exact ⟨_, rfl⟩
    obtain ⟨e, hraised⟩ := hraised
    have hb := hbreaks.2 rfl
    exact ⟨⟨fun _ => ⟨_, hraised, Bool.false_ne_true⟩, fun _ => hb⟩, fun hgood => absurd hb hgood⟩

end

/-- Every case that can be built is judged. -/
theorem caseJudged_of_builds {t : Trial} (h : Builds runner compiled.doc t.1) (report : Report) :
    CaseJudged runner compiled t report := by
  cases ends_of_builds h with
  | unpinned entity field h hnever => exact caseJudged_of_unpinned h hnever
  | interpreted lines start hexecutes honly h =>
    cases hrun : interpret runner compiled t start with
    | ok result session =>
      rw [hrun] at h
      exact caseJudged_of_ran hexecutes honly hrun h
    | error e session =>
      rw [hrun] at h
      apply caseJudged_of_error hexecutes honly hrun
      rw [h]
      cases e <;> rfl

/-! ### Counts -/

/-- The verdicts of a report. -/
def Report.verdicts (r : Report) : Nat := r.passed + r.failed

theorem verdicts_enter (c : Case) (acc : Report × Bool) (v : Check) :
    (enter c acc v).1.verdicts = acc.1.verdicts + 1 := by
  unfold enter
  split_ifs
  · show acc.1.passed + 1 + acc.1.failed = acc.1.passed + acc.1.failed + 1
    omega
  · show acc.1.passed + (acc.1.failed + 1) = acc.1.passed + acc.1.failed + 1
    omega

theorem verdicts_runCase {t : Trial} {report : Report}
    (h : runCase runner compiled report t = .ok report') :
    report'.verdicts = report.verdicts + verdictsDue runner compiled t := by
  unfold runCase at h
  unfold verdictsDue
  cases hrun : caseRun runner compiled t with
  | error e =>
    rw [hrun] at h
    cases h
  | ok end_ =>
    rw [hrun] at h
    cases end_ with
    | unpinned entity field =>
      cases h
      exact (Nat.add_assoc _ _ _).symm
    | ended message =>
      cases h
      exact (Nat.add_assoc _ _ _).symm
    | ran obs =>
      obtain ⟨_, ⟨⟩, h⟩ := bind_eq_ok.1 h
      obtain ⟨⟨report₁, caseFailed⟩, hfold, h⟩ := bind_eq_ok.1 h
      have hstep : ∀ (acc : Report × Bool) phrase acc',
          runExpectation runner compiled t.1 obs acc phrase = .ok acc' →
            acc'.1.verdicts = acc.1.verdicts + 1 := by
        intro acc phrase acc' hstep
        obtain ⟨v, -, hv⟩ := bind_eq_ok.1 hstep
        rw [← pure_eq_ok.1 hv]
        exact verdicts_enter t.1 acc v
      have hcount : report₁.verdicts = report.verdicts + (t.1.expect.map fun _ => 1).sum :=
        foldlM_count hstep hfold
      have hsame : report'.verdicts = report₁.verdicts := by
        rw [← pure_eq_ok.1 h]
        split_ifs <;> rfl
      rw [hsame, hcount]
      simp

variable {trials : List Trial}

/-- **Every report counts every verdict that is due.** -/
theorem verdicts_of_runManifest {report : Report}
    (h : runManifest runner compiled trials = .ok report) :
    report.passed + report.failed = (trials.map (verdictsDue runner compiled)).sum := by
  have hstep : ∀ (r : Report) t r', runCase runner compiled r t = .ok r' →
      r'.verdicts = r.verdicts + verdictsDue runner compiled t := fun _ _ _ => verdicts_runCase
  have hcount := foldlM_count hstep h
  simpa [Report.verdicts] using hcount

/-! ### The law -/

/-- The lines of an extracted case, as the runner classifies them. -/
theorem exists_lines (hlowered : Lowered decls compiled.doc)
    (hextract : extract runner decls = .ok (trials.map Prod.fst)) {t : Trial} (ht : t ∈ trials) :
    ∃ lines, classify runner compiled.doc t.1.given = .ok lines ∧
      (∀ line ∈ lines, line.Named compiled.doc) ∧ ¬ Contradictory lines := by
  obtain ⟨place, hvalid⟩ := validateGiven_of_extract hextract (List.mem_map_of_mem ht)
  exact classify_of_validateGiven hlowered hvalid

/-- What such a case starts from is built exactly if its words can be read. -/
theorem builds_iff (hlowered : Lowered decls compiled.doc)
    (hextract : extract runner decls = .ok (trials.map Prod.fst)) {t : Trial} (ht : t ∈ trials) :
    Builds runner compiled.doc t.1 ↔
      ∀ phrase ∈ t.1.given, ∀ line,
        checkGiven runner (schemaFromNodes compiled.doc.entities) "" phrase = .ok line →
          line.Reads runner compiled.doc := by
  obtain ⟨lines, hlines, hnamed, hagree⟩ := exists_lines hlowered hextract ht
  have hbuild := @exists_build_iff runner compiled.doc t.1.workflow lines hnamed hagree
  constructor
  · rintro ⟨lines', start, hlines', hstart⟩ phrase hphrase line hline
    obtain rfl : lines = lines' := Except.ok.inj (hlines.symm.trans hlines')
    exact hbuild.1 ⟨start, hstart⟩ line ((mem_mapM hlines).2 ⟨phrase, hphrase, hline⟩)
  · intro hreads
    have hall : ∀ line ∈ lines, line.Reads runner compiled.doc := by
      intro line hline
      obtain ⟨phrase, hphrase, hchecked⟩ := (mem_mapM hlines).1 hline
      exact hreads phrase hphrase line hchecked
    obtain ⟨start, hstart⟩ := hbuild.2 hall
    exact ⟨lines, start, hlines, hstart⟩

/-- A manifest whose cases can all be built raises a `SpecError` only iff none of them breaks before
one is refused. -/
theorem runManifest_only_iff {trials : List Trial}
    (h : ∀ t ∈ trials, Builds runner compiled.doc t.1) :
    (∀ e, runManifest runner compiled trials = .error e → e.isSpecError = true) ↔
      NoneBefore (Refuses runner compiled) (Breaks runner compiled) trials := by
  apply raises_only_iff
  · intro t ht report
    exact (caseJudged_of_builds (h t ht) report).breaks
  · intro t ht report
    exact (caseJudged_of_builds (h t ht) report).refuses

/-- The registration, compiled. -/
def compiledRegistration : Compiled where
  doc := registration
  «namespace» := fun _ => none
  eventName := id
  responseSloMs := fun _ => none

/-- The registration with one expectation. -/
def expectingDecls (words : List String) (h : words ≠ []) : List Decl :=
  [{ Front.Decl.new .entity "User" 1 with
     clauses := [("field", [⟨3, ["email", "Email"], 4, emailField_ne_nil⟩])] },
   { Front.Decl.new .workflow "Register" 4 with
     clauses := [("spec", [])]
     specs :=
       [{ given := []
          «when» := [⟨9, ["run"], 6, run_ne_nil⟩]
          expect := [⟨11, words, 6, h⟩]
          lineno := 6
          opened := []
          indent := 2
          sectionIndent := none }] }]

/-- Its one case, in a world without parallel blocks. -/
def expectingTrial (phrase : String) : Trial :=
  ({ name := "Register spec"
     workflow := "wf.register"
     given := []
     «when» := ["run"]
     expect := [phrase] },
   { fresh := fun _ => ""
     schedules := fun _ => [] })

theorem lowered_registration (words : List String) (h : words ≠ []) :
    Lowered (expectingDecls words h) registration := by
  refine .cons ?_ .nil
  constructor
  · rfl
  · decide
  · rfl

/-- The fault of `int` that ends a manifest. -/
def endsInValueError (word : String) : Except Raised Report → Bool
  | .error (.fault (.value text)) => text = word
  | _ => false

/-- The report that a manifest ends in. -/
def endsIn (passed failed : Nat) : Except Raised Report → Bool
  | .ok report => report.passed = passed && report.failed = failed
  | .error _ => false

end Lnpl.Spec
