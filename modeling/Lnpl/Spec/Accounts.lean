import Lnpl.Lib.FirstError
import Lnpl.Spec.Expectations

/-!
# Running a manifest

`run_manifest`: every case is built from its given lines, run on the in-memory drivers, and judged
by its expect lines, one line of the report each.  What a run meets besides its document is a
`World`: the values it would fill in unpinned, and the schedules of its parallel blocks.
-/

namespace Lnpl.Spec

open Interp (Exc FakeRows FakeStore FillSource Move)

/-- What the run of a case meets. -/
structure World where
  fresh : FillSource → String
  schedules : Nat → List Move

/-- A case with the world it is run in. -/
abbrev Trial := Case × World

variable (runner : Runner) (compiled : Compiled)

/-! ### The run of a case -/

/-- `Interpreter(document, repo_rows=rows, network=network)`. -/
def interpreter (start : Start) : Interp.Runtime FakeRows FakeStore Unit where
  doc := compiled.doc
  lang := runner.lang
  repo := .fake runner.lang
  cache := .fake
  network := .fake start.answer

/-- `interp.run_workflow(workflow, payload, run_context=run_context)`. -/
def interpret (t : Trial) (start : Start) :
    EStateM.Result Exc (Interp.Session FakeRows FakeStore Unit) Interp.Result :=
  let fill (source : FillSource) : String := (start.context.get source).getD (t.2.fresh source)
  let exec : Interp.Exec FakeRows FakeStore Unit :=
    { repo := { rows := start.rows }
      cache := {}
      network := () }
  Interp.runWorkflow (interpreter runner compiled start) t.1.workflow start.payload fill
    t.2.schedules exec

/-- What the expectations of a case read. -/
def observed (t : Trial) (start : Start) (result : Interp.Result)
    (session : Interp.Session FakeRows FakeStore Unit) : Observed where
  payload := start.payload
  result := result
  exec := session.run.exec
  durationMs := session.run.exec.now
  sloMs := compiled.responseSloMs t.1.workflow

/-- How far a case gets. -/
inductive CaseRun where
  /-- a field would be filled with a fresh value -/
  | unpinned (entity field : String)
  /-- a `RunError` ended the run -/
  | ended (message : String)
  | ran (obs : Observed)

/-- What `run_manifest` does of a case before it reads its expectations. -/
def caseRun (t : Trial) : Except Raised CaseRun := do
  let lines ← (classify runner compiled.doc t.1.given).mapError Raised.fault
  let start ← (build runner compiled.doc t.1.workflow lines).mapError Raised.fault
  match unpinnedGenerated compiled.doc t.1.workflow start.context with
  | some (entity, field) => return .unpinned entity field
  | none =>
    match interpret runner compiled t start with
    | .ok result session => return .ran (observed compiled t start result session)
    | .error (.run e) _ => return .ended e.message
    | .error e _ => .error (.exc e)

/-! ### The report -/

/-- `(passed, failed, lines)`. -/
structure Report where
  passed : Nat := 0
  failed : Nat := 0
  lines : List String := []

namespace Report

/-- A line that counts as passed. -/
def pass (c : Case) (text : String) (r : Report) : Report :=
  { r with passed := r.passed + 1, lines := r.lines ++ ["PASS " ++ c.name ++ " — " ++ text] }

/-- A line that counts as failed. -/
def fail (c : Case) (text : String) (r : Report) : Report :=
  { r with failed := r.failed + 1, lines := r.lines ++ ["FAIL " ++ c.name ++ " — " ++ text] }

/-- The line that says where a failed run stopped. -/
def explain (obs : Observed) (r : Report) : Report :=
  let step := reprOption runner (obs.result.failure.map Interp.Failure.step)
  let reason := (obs.result.failure.map Interp.Failure.reason).getD "None"
  { r with lines := r.lines ++ ["     reason: step=" ++ step ++ " — " ++ reason] }

end Report

/-- The verdict on an expectation: whether it passes, and what its line tells. -/
def judge (obs : Observed) (phrase : String) : Except Raised Check :=
  match Front.tokens phrase with
  | [] => .error (.exc (.other "IndexError"))
  | key :: _ =>
    match Expectation.ofWord? key with
    | none =>
      let known := ", ".intercalate (Lib.Py.sortTexts (expectations.map Expectation.word))
      .ok (false, "unsupported expectation " ++ runner.py.repr phrase ++ " (known: " ++ known ++
        ")")
    | some kind => do
      let (ok, detail) ← kind.check runner compiled obs phrase
      return (ok, phrase ++ " (" ++ detail ++ ")")

/-- A verdict, entered in the report; the flag is `case_failed`. -/
def enter (c : Case) (acc : Report × Bool) (verdict : Check) : Report × Bool :=
  if verdict.1 then (acc.1.pass c verdict.2, acc.2) else (acc.1.fail c verdict.2, true)

/-- One expectation of a case. -/
def runExpectation (c : Case) (obs : Observed) (acc : Report × Bool) (phrase : String) :
    Except Raised (Report × Bool) := do
  return enter c acc (← judge runner compiled obs phrase)

/-- One case. -/
def runCase (report : Report) (t : Trial) : Except Raised Report := do
  match ← caseRun runner compiled t with
  | .unpinned entity field =>
    return report.fail t.1 (entity ++ "." ++ field ++ " is `derived generated`, so an unpinned " ++
      "run gets a fresh UUID every time; pin it with `given run.generated <uuid>` (RFC-0055)")
  | .ended message => return report.fail t.1 ("run error: " ++ message)
  | .ran obs =>
    let (report, caseFailed) ← t.1.expect.foldlM (runExpectation runner compiled t.1 obs)
      (report, false)
    return if caseFailed && !obs.result.completed then report.explain runner obs else report

/-- `run_manifest`. -/
def runManifest (trials : List Trial) : Except Raised Report :=
  trials.foldlM (runCase runner compiled) {}

end Lnpl.Spec

/-!
## Accounts of a manifest

A runner that can be relied on returns a report or refuses the manifest, takes every given line that
`extract` has taken, and gives every expectation its verdict (`Accountable`).  Which lines keep this
one from it is `Readable`: the words that a test has let pass and a conversion does not read.
-/

namespace Lnpl.Spec

open Front (Decl Line)
open Interp (Document)
open Lib (NoneBefore)

variable (runner : Runner) (compiled : Compiled)

/-! ### Lowering -/

/-- The entity that a declaration lowers to. -/
structure LowersTo (d : Decl) (e : Interp.Entity) : Prop where
  name : e.name = d.name
  named : d.name ≠ ""
  fields : e.fields.map Interp.Field.name = (clause d "field").map Line.head

/-- The document has the entities that the declarations lower to. -/
def Lowered (decls : List Decl) (doc : Document) : Prop :=
  List.Forall₂ LowersTo (decls.filter fun d => d.kind = .entity) doc.entities

/-! ### The law -/

/-- The run of a case ends and is judged by its expectations. -/
def Runs (t : Trial) (obs : Observed) : Prop :=
  ∃ lines start result session, Executes runner compiled.doc t.1 lines start ∧
    interpret runner compiled t start = .ok result session ∧
      obs = observed compiled t start result session

/-- How many verdicts a case is due: one for each expectation once it has run, and one if it is
refused or ended by a run error. -/
def verdictsDue (t : Trial) : Nat :=
  match caseRun runner compiled t with
  | .ok (.ran _) => t.1.expect.length
  | _ => 1

/-- The manifest is run to a report, or refused by a `SpecError`; no given line is refused; and the
report has a verdict for everything that is due one. -/
structure Accountable (trials : List Trial) : Prop where
  total : ∀ e, runManifest runner compiled trials = .error e → e.isSpecError
  given : ∀ t ∈ trials, ∃ lines start, classify runner compiled.doc t.1.given = .ok lines ∧
    build runner compiled.doc t.1.workflow lines = .ok start
  counts : ∀ report, runManifest runner compiled trials = .ok report →
    report.passed + report.failed = (trials.map (verdictsDue runner compiled)).sum

/-! ### Given lines that can be read -/

/-- `int` reads the word. -/
def ReadsInt (word : String) : Prop := (Interp.intText runner.py word).isSome = true

/-- A word that the digit test takes for an integer is one. -/
def Converts (word : String) : Prop := readsAsInt runner.py word = true → ReadsInt runner word

/-- The word writes an amount of money. -/
def WritesMoney (word : String) : Prop := ∃ amount, parseMoneyLiteral runner word = .ok (some amount)

/-- The word of an input field of the base can be read. -/
def ReadsInput (word : String) (base : Option String) : Prop :=
  (base = some "Integer" → Converts runner word) ∧
    (base = some "Money" → WritesMoney runner word)

/-- The word of a stored field of the base can be read. -/
def ReadsStored (word : String) (base : Option String) : Prop :=
  if base = some "Money" then WritesMoney runner word else Converts runner word

/-- The words of a given line can be read. -/
def Given.Reads (doc : Document) : Given → Prop
  | .inputField name word => ReadsInput runner word (inputBase doc name)
  | .field name word => ReadsInput runner word (inputBase doc name)
  | .stored name f word | .storedIndexed name _ f word =>
    ∀ e, entityNamed doc name = .ok e → ReadsStored runner word (entityFieldBase doc e f)
  | .networkStub _ status => ReadsInt runner status
  | .networkStubBody _ status _ word => ReadsInt runner status ∧ Converts runner word
  | _ => True

/-! ### Expectations that can be read -/

/-- The name names one node. -/
def Resolves (candidates : List Named) (name : String) : Prop :=
  ∃ node, resolveNode runner candidates name = .ok (some node)

/-- The word writes a duration within 64 bits. -/
def WritesDuration (word : String) : Prop := ∃ ms, runner.py.durationMsOrNone word = .ok (some ms)

/-- What may stand behind the event of an `emitted` expectation. -/
def IsEmittedCheck (rest : List String) : Prop :=
  rest = [] ∨ (∃ count, rest = ["count", count] ∧ runner.py.isdigit count = true) ∨
    ∃ field word, rest = ["payload", field, word] ∧ word ∈ ["exists", "missing"]

namespace Expectation

variable (obs : Observed) (phrase : String)

/-- The reader refuses its line by a `SpecError`. -/
def Refused : Expectation → Prop
  | completed | failed | steps | attempts => False
  | slo =>
    match Front.tokens phrase with
    | [_, word] => word ≠ "met"
    | _ => True
  | duration =>
    match Front.tokens phrase with
    | [_, op, _] => Front.Comparator.ofWord? op = none
    | _ => True
  | cache =>
    match Front.tokens phrase with
    | [_, word] => word ∉ ["written", "hit", "miss"]
    | _ => True
  | result =>
    restOf phrase = "" ∨
      ∃ e, resultHolds runner compiled.doc obs.seen (restOf phrase) = .error (.run e)
  | rows =>
    match Front.tokens phrase with
    | [_, entity, count] =>
      ¬ (runner.py.isdigit count = true ∧ Resolves runner compiled.entities entity)
    | _ => True
  | emitted =>
    match Front.tokens phrase with
    | _ :: event :: rest => ¬ (Resolves runner compiled.events event ∧ IsEmittedCheck runner rest)
    | _ => True
  | error =>
    match Front.tokens phrase with
    | _ :: kind :: _ :: _ => kind ∉ ["step", "reason"]
    | _ => True
  | effects =>
    match Front.tokens phrase with
    | [_, count] => count ≠ "complete" ∧ runner.py.isdigit count = false
    | _ => True

/-- The reader takes a word of its line that a conversion behind it does not read, or looks up a
comparator that its table does not have. -/
def Misread : Expectation → Prop
  | steps | attempts => ¬ ReadsInt runner ((Front.tokens phrase).getLast?.getD "")
  | duration =>
    match Front.tokens phrase with
    | [_, op, limit] =>
      (Front.Comparator.ofWord? op).isSome = true ∧
        (op ∈ ["==", "!="] ∨ ¬ WritesDuration runner limit)
    | _ => False
  | result =>
    restOf phrase ≠ "" ∧
      ∃ e, resultHolds runner compiled.doc obs.seen (restOf phrase) = .error e ∧
        e.isRunError = false
  | rows =>
    match Front.tokens phrase with
    | [_, entity, count] =>
      runner.py.isdigit count = true ∧ Resolves runner compiled.entities entity ∧
        ¬ ReadsInt runner count
    | _ => False
  | emitted =>
    match Front.tokens phrase with
    | [_, event, word, count] =>
      Resolves runner compiled.events event ∧ word = "count" ∧ runner.py.isdigit count = true ∧
        ¬ ReadsInt runner count
    | _ => False
  | effects =>
    match Front.tokens phrase with
    | [_, count] =>
      count ≠ "complete" ∧ runner.py.isdigit count = true ∧ ¬ ReadsInt runner count
    | _ => False
  | completed | failed | slo | cache | error => False

end Expectation

variable (obs : Observed) (phrase : String)

/-- The expectation that the first word of a line names. -/
def expectationOf : Option Expectation := (Front.tokens phrase).head?.bind Expectation.ofWord?

/-- The line is refused by a `SpecError`. -/
def Refused : Prop :=
  ∃ kind, expectationOf phrase = some kind ∧ kind.Refused runner compiled obs phrase

/-- The line ends the runner by another exception. -/
def Misread : Prop :=
  Front.tokens phrase = [] ∨
    ∃ kind, expectationOf phrase = some kind ∧ kind.Misread runner compiled obs phrase

/-! ### Manifests that can be read -/

/-- The case runs, and one of its expectations is refused. -/
def Refuses (t : Trial) : Prop :=
  ∃ obs, Runs runner compiled t obs ∧ ∃ phrase ∈ t.1.expect, Refused runner compiled obs phrase

/-- The interpreter lets pass an exception other than a `RunError`, or an expectation is misread
before one is refused. -/
def Breaks (t : Trial) : Prop :=
  (∃ lines start e session, Executes runner compiled.doc t.1 lines start ∧
    interpret runner compiled t start = .error e session ∧ e.isRunError = false) ∨
  ∃ obs, Runs runner compiled t obs ∧
    ¬ NoneBefore (Refused runner compiled obs) (Misread runner compiled obs) t.1.expect

/-- Every word of a given line can be read, and no case breaks before one is refused. -/
structure Readable (trials : List Trial) : Prop where
  given : ∀ t ∈ trials, ∀ phrase ∈ t.1.given, ∀ line,
    checkGiven runner (schemaFromNodes compiled.doc.entities) "" phrase = .ok line →
      line.Reads runner compiled.doc
  trials : NoneBefore (Refuses runner compiled) (Breaks runner compiled) trials

end Lnpl.Spec
