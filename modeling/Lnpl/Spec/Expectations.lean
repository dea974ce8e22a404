import Lnpl.Interp.Fakes
import Lnpl.Interp.Interpreter
import Lnpl.Spec.Fixture

/-!
# `expect result`

`_condition_holds` as a `result` expectation calls it: with the fields that hold money or text, and
with the response, whose terms a bare name answers ahead of the payload.
-/

namespace Lnpl.Spec

open Front (Python)
open Interp (Json JsonOps Dict Scope Document Exc EvalFault Quantity)

variable (runner : Runner) (doc : Document)

/-! ### Scopes -/

/-- What a `result` expectation sees of a run. -/
structure Seen where
  payload : Dict
  bindings : Std.ExtTreeMap String Dict
  response : Dict

/-- The scope of a guard; there is no caller. -/
def Seen.scope (seen : Seen) : Scope where
  payload := seen.payload
  bindings := seen.bindings.map fun _ row => { data := row }
  caller := none

/-- `resolve_reference` with a response. -/
def Seen.resolve (seen : Seen) (name : String) : Json :=
  match Front.partitionName name, seen.response[name]? with
  | none, some value => value
  | _, _ => Interp.resolveReference (Interp.refOf name) seen.scope

/-! ### Evaluation -/

section

variable (py : Python) (ops : JsonOps) (resolve : String → Json) (isText : Front.Comparison → Bool)

/-- `eval_value` of an operand, resolved by `resolve`. -/
def evalOperandBy (condition : String) : Front.Operand → Except EvalFault (Option Quantity)
  | .lit l => .ok (some (.number l.value))
  | .ref r =>
    match resolve r.name with
    | .null => .ok none
    | raw => some <$> Interp.evalRaw py ops r.name condition raw

/-- `eval_value`, resolved by `resolve`. -/
def evalValueBy (condition : String) : Front.Value → Except EvalFault (Option Quantity)
  | .operand o => evalOperandBy py ops resolve condition o
  | .arith a => do
    let left ← evalOperandBy py ops resolve condition a.left
    let right ← evalOperandBy py ops resolve condition a.right
    match left, right with
    | some (.number l), some (.number r) =>
      return some (.number (← Interp.evalArith py a l r condition))
    | some l, some r => return some (← Interp.evalMoneyArith py a l r condition)
    | _, _ => return none

/-- `_comparison_holds`, resolved by `resolve`; a text equality resolves without the response. -/
def comparisonHoldsBy (condition : String) (scope : Scope) (t : Front.Comparison) :
    Except EvalFault Bool := do
  if isText t then Interp.textComparisonHolds py ops condition scope t
  else
    let left ← evalValueBy py ops resolve condition t.left
    let right ← evalValueBy py ops resolve condition t.right
    match left, right with
    | some (.number l), some (.number r) => return Interp.compareNumbers t.op l r
    | some (.money m c), some (.money m' c') =>
      match t.op with
      | .eq => return decide ((m, c) = (m', c'))
      | .ne => return decide ((m, c) ≠ (m', c'))
      | op =>
        let order ← Interp.inCondition py condition (Interp.compareMoney (m, c) (m', c'))
        return Interp.compareNumbers op order 0
    | some _, some _ =>
      .error ⟨.mixed, "cannot compare a Money value with a plain number: " ++ t.left.toText ++
        " (in " ++ py.repr condition ++ ")"⟩
    | _, _ => return false

/-- One term; the predicate on a shape resolves without the response. -/
def termHoldsBy (condition : String) (scope : Scope) : Front.Term → Except EvalFault Bool
  | .comparison t => comparisonHoldsBy py ops resolve isText condition scope t
  | .numericPredicate p => .ok (Interp.numericPredicateHolds py scope p)

/-- `_condition_holds` of a parsed condition, resolved by `resolve`. -/
def parsedHoldsBy (condition : String) (scope : Scope) :
    Front.Condition → Except EvalFault Bool
  | .presence p =>
    let absent := (resolve p.field).isNull
    match p.kind with
    | .exists => .ok !absent
    | .missing => .ok absent
  | .term t => termHoldsBy py ops resolve isText condition scope t
  | .and a => do
    let results ← a.terms.mapM (termHoldsBy py ops resolve isText condition scope)
    return results.all id

end

/-! ### Fields by their bases -/

/-- `_field_base_predicate`. -/
def fieldHasBase (bases : List String) (bare : Bool) (ref : String) : Bool :=
  match Front.partitionName ref with
  | none => bare && (inputBase doc ref).any bases.contains
  | some (head, tail) =>
    match entityNamed doc head with
    | .ok e => (entityFieldBase doc e tail).any bases.contains
    | .error _ => (inputBase doc tail).any bases.contains

/-- A term of a `respond` that is an amount of money. -/
def isMoneyTerm (name : String) : Bool :=
  doc.effects.any fun
    | .response _ _ terms _ =>
      terms.any fun term => term.name = name && term.aggFieldType = some "Money"
    | _ => false

/-- `_money_field_predicate`. -/
def isMoneyField (ref : String) : Bool := fieldHasBase doc ["Money"] true ref || isMoneyTerm doc ref

/-- `_TEXT_EQUALITY_BASES`. -/
def textEqualityBases : List String :=
  ["UUID", "Email", "Phone", "Currency", "Html", "Markdown", "Text"]

/-- `_text_field_predicate`. -/
def isTextField (ref : String) : Bool := fieldHasBase doc textEqualityBases false ref

/-- `_is_text_term` with the text fields: an equality with a qualified operand that names one. -/
def isTextEquality (t : Front.Comparison) : Bool :=
  (t.op = .eq || t.op = .ne) && [t.left, t.right].any fun
    | .operand (.ref r) => (Front.partitionName r.name).isSome && isTextField doc r.name
    | _ => false

/-! ### The conditions of `result` -/

/-- An evaluation fault as the exception it is raised as. -/
def excOf (fault : EvalFault) : Exc :=
  if fault.cause = .digits then .other "ValueError" else .run { message := fault.message }

/-- A parse fault as the exception it leaves `_condition_holds` as. -/
def excOfParse : Front.Fault → Exc
  | .condition message => .run { message := "Invalid condition: " ++ message }
  | .value _ => .other "ValueError"
  | .overflow _ => .other "OverflowError"

/-- `encode_money` of an amount that a `result` compares. -/
def encodeResult (condition : String) (amount currency : Json) : Except Exc Interp.Pair :=
  match Interp.encodeMoney runner.py runner.ops amount currency with
  | .ok pair => .ok pair
  | .error (.value _) => .error (.other "ValueError")
  | .error (.money code message) =>
    .error (.run { message := message ++ " (" ++ code.name ++ ") in `expect result` (" ++
      runner.py.repr condition ++ ")" })

/-- A comparison of a money field with an amount. -/
def moneyHolds (condition ref : String) (op : Front.Comparator) (actual parsed : Json) :
    Except Exc Bool :=
  let order (a b : Interp.Pair) : Except Exc Bool :=
    match Interp.compareMoney a b with
    | .ok n => .ok (Interp.compareNumbers op n 0)
    | .error (.value _) => .error (.other "ValueError")
    | .error (.money code message) =>
      .error (.run { message := message ++ " (" ++ code.name ++ ") in `expect result` (" ++
        runner.py.repr condition ++ ")" })
  let noAmount : Except Exc Bool :=
    .error (.run { message := ref ++ "=" ++ runner.repr actual ++ " is not a Money value in " ++
      "`expect result` (" ++ runner.py.repr condition ++ ")" })
  match op, actual, parsed with
  | .eq, _, _ => .ok (runner.ops.eq actual parsed)
  | .ne, _, _ => .ok (!runner.ops.eq actual parsed)
  | _, .obj fields, .obj literal =>
    match fields.lookup "amount", fields.lookup "currency", literal.lookup "amount",
        literal.lookup "currency" with
    | some amount, some currency, some amount', some currency' => do
      let a ← encodeResult runner condition amount currency
      let b ← encodeResult runner condition amount' currency'
      order a b
    | _, _, _, _ => noAmount
  | _, _, _ => noAmount

/-- `_condition_holds` of what `parse_condition` reads. -/
def grammarHolds (seen : Seen) (condition : String) : Except Exc Bool :=
  match Front.parseCondition runner.py (some condition) with
  | .ok none => .ok true
  | .ok (some cond) =>
    (parsedHoldsBy runner.py runner.ops seen.resolve (isTextEquality doc) condition seen.scope
      cond).mapError excOf
  | .error fault => .error (excOfParse fault)

/-- `_condition_holds` of a `result` expectation. -/
def resultHolds (seen : Seen) (condition : String) : Except Exc Bool :=
  match Front.tokens condition with
  | [ref, op, value] =>
    match Front.Comparator.ofWord? op with
    | some op =>
      if isMoneyField doc ref then
        match parseMoneyLiteral runner value with
        | .error message => .error (.run { message := message })
        | .ok (some parsed) => moneyHolds runner condition ref op (seen.resolve ref) parsed
        | .ok none => grammarHolds runner doc seen condition
      else grammarHolds runner doc seen condition
    | none => grammarHolds runner doc seen condition
  | _ => grammarHolds runner doc seen condition

end Lnpl.Spec

/-!
## Expectations

The closed vocabulary of the `expect` lines of a `spec` block (`EXPECTATIONS`): each word has its
own reader, which is run on the rest of its line once the workflow has ended.
-/

namespace Lnpl.Spec

open Interp (Json Dict Document Exc FakeRows FakeStore)

/-- What leaves the run of a manifest: a fault of the runner, or an exception that it lets pass. -/
inductive Raised where
  | fault (f : Fault)
  | exc (e : Exc)
  deriving DecidableEq, Repr

/-- It is a `SpecError`. -/
def Raised.isSpecError : Raised → Bool
  | .fault (.spec _) => true
  | _ => false

/-- `raise SpecError(message)`. -/
def refuse {α : Type} (message : String) : Except Raised α := .error (.fault (.spec message))

/-- The parts of a compiled document that only its expectations read: the namespaces of its nodes,
the names of its events, and the response objective of the service of a workflow. -/
structure Compiled where
  doc : Document
  «namespace» : String → Option String
  eventName : String → String
  responseSloMs : String → Option Nat

/-- A run that has ended, with the interpreter as it left it. -/
structure Observed where
  payload : Dict
  result : Interp.Result
  exec : Interp.Exec FakeRows FakeStore Unit
  durationMs : Nat
  sloMs : Option Nat

namespace Observed

/-- `result["status"]`. -/
def status (obs : Observed) : String := if obs.result.completed then "completed" else "failed"

/-- `result.get("slo_met")`. -/
def sloMet (obs : Observed) : Option Bool := obs.sloMs.map fun ms => obs.durationMs ≤ ms

/-- The scope of its `result` expectations. -/
def seen (obs : Observed) : Seen where
  payload := obs.payload
  bindings := obs.result.bindings
  response := obs.result.response.getD ∅

end Observed

/-! ### Names -/

/-- A node that a short name may resolve to. -/
structure Named where
  id : String
  name : String
  «namespace» : Option String
  deriving DecidableEq, Repr

/-- `qualified_name`. -/
def Named.qualified (node : Named) : String :=
  match node.namespace with
  | none | some "" => node.name
  | some space => space ++ "." ++ node.name

/-- The entities of a document. -/
def Compiled.entities (compiled : Compiled) : List Named :=
  compiled.doc.entities.map fun e => ⟨e.id, e.name, compiled.namespace e.id⟩

/-- The events of a document. -/
def Compiled.events (compiled : Compiled) : List Named :=
  compiled.doc.events.map fun id => ⟨id, compiled.eventName id, compiled.namespace id⟩

variable (runner : Runner) (compiled : Compiled) (obs : Observed)

/-- `resolve_node`; the error is the text of an `AmbiguousName`. -/
def resolveNode (candidates : List Named) (name : String) : Except String (Option Named) :=
  match candidates.filter fun node => node.qualified = name with
  | [node] => .ok (some node)
  | [] =>
    match candidates.filter fun node => node.name = name with
    | [] => .ok none
    | [node] => .ok (some node)
    | bare =>
      let names := ", ".intercalate (Lib.Py.sortTexts (bare.map Named.qualified))
      .error (runner.py.repr name ++ " is ambiguous across namespaces (" ++ names ++
        ") — name one of them exactly")
  | exact =>
    let ids := ", ".intercalate (Lib.Py.sortTexts (exact.map Named.id))
    .error (runner.py.repr name ++ " is ambiguous — " ++ ids ++ " share that qualified name; " ++
      "rename one so it can be addressed")

/-- The node of a kind that a name names, or a `SpecError`. -/
def nodeFor (kind : String) (candidates : List Named) (name : String) : Except Raised Named :=
  match resolveNode runner candidates name with
  | .error message => refuse message
  | .ok none => refuse ("no " ++ kind ++ " named " ++ runner.py.repr name ++ " is declared")
  | .ok (some node) => .ok node

/-! ### Words -/

/-- `int(word)`. -/
def intOf (word : String) : Except Raised Int :=
  match Interp.intText runner.py word with
  | some n => .ok n
  | none => .error (.fault (.value word))

/-- `_duration_ms`. -/
def durationOf (word : String) : Except Raised Nat :=
  match runner.py.durationMsOrNone word with
  | .ok (some ms) => .ok ms
  | .ok none => .error (.exc (.run { message := "not a duration: " ++ runner.py.repr word }))
  | .error (.overflow message) => .error (.exc (.run { message := message }))
  | .error _ => .error (.fault (.value word))

/-- `repr` of a text that may be `None`. -/
def reprOption : Option String → String
  | none => "None"
  | some text => runner.py.repr text

/-- What is behind the first word of a phrase: `phrase.split(None, 1)[1]`, or the empty text. -/
def restOf (phrase : String) : String :=
  let chars := (phrase.toList.dropWhile Front.isSpace).dropWhile fun ch => !Front.isSpace ch
  String.ofList (chars.dropWhile Front.isSpace)

/-- The text of a boolean. -/
def boolText (b : Bool) : String := if b then "True" else "False"

/-! ### Readers -/

/-- Whether an expectation is met, and the detail of its line. -/
abbrev Check := Bool × String

/-- `got == want`, with its detail. -/
def counted (label : String) (got want : Int) : Check :=
  (got = want, label ++ "=" ++ toString got ++ " want=" ++ toString want)

/-- `_expect_completed`. -/
def expectCompleted : Check := (obs.result.completed, "status=" ++ obs.status)

/-- `_expect_failed`. -/
def expectFailed : Check := (!obs.result.completed, "status=" ++ obs.status)

/-- `_expect_step_count`. -/
def expectStepCount (tokens : List String) : Except Raised Check := do
  let want ← intOf runner (tokens.getLast?.getD "")
  return counted "steps" obs.result.steps.length want

/-- `_expect_slo`. -/
def expectSlo (phrase : String) : List String → Except Raised Check
  | [_, "met"] => .ok (obs.sloMet = some true, "slo_met=" ++ (obs.sloMet.map boolText).getD "None")
  | _ => refuse ("unsupported slo expectation: " ++ runner.py.repr phrase)

/-- `_expect_duration`. -/
def expectDuration (phrase : String) (tokens : List String) : Except Raised Check :=
  let unsupported : Except Raised Check :=
    refuse ("unsupported duration expectation: " ++ runner.py.repr phrase)
  match tokens with
  | [_, op, limit] =>
    match Front.Comparator.ofWord? op with
    | none => unsupported
    | some op => do
      let limit ← durationOf runner limit
      let got := obs.durationMs
      let detail := "duration=" ++ toString got ++ "ms limit=" ++ toString limit ++ "ms"
      match op with
      | .lt => return (got < limit, detail)
      | .le => return (got ≤ limit, detail)
      | .gt => return (limit < got, detail)
      | .ge => return (limit ≤ got, detail)
      -- the table of the order comparators has no entry for the two equalities
      | op => .error (.fault (.key op.word))
  | _ => unsupported

/-- `_expect_cache`. -/
def expectCache (phrase : String) (tokens : List String) : Except Raised Check :=
  let cache := obs.exec.cache
  match tokens with
  | [_, "written"] =>
    .ok (0 < cache.store.size, "cache entries=" ++ toString cache.store.size)
  | [_, "hit"] => .ok (0 < cache.hits, "cache hits=" ++ toString cache.hits)
  | [_, "miss"] => .ok (0 < cache.misses, "cache misses=" ++ toString cache.misses)
  | _ => refuse ("unsupported cache expectation: " ++ runner.py.repr phrase)

/-- `_expect_attempts`. -/
def expectAttempts (tokens : List String) : Except Raised Check := do
  let want ← intOf runner (tokens.getLast?.getD "")
  let got := (obs.result.steps.map Interp.StepRecord.attempts).foldr max 0
  return counted "max attempts" got want

/-- `_expect_result`. -/
def expectResult (phrase : String) : Except Raised Check :=
  let text := restOf phrase
  if text = "" then
    refuse ("`result` needs a reference and a check: " ++ runner.py.repr phrase)
  else
    match resultHolds runner compiled.doc obs.seen text with
    | .ok ok => .ok (ok, text ++ " -> " ++ boolText ok)
    | .error (.run e) =>
      refuse ("unsupported result expectation " ++ runner.py.repr phrase ++ ": " ++ e.message)
    | .error e => .error (.exc e)

/-- `_expect_rows`. -/
def expectRows (phrase : String) (tokens : List String) : Except Raised Check :=
  let unsupported : Except Raised Check :=
    refuse ("unsupported rows expectation: " ++ runner.py.repr phrase ++
      " (use `rows <Entity> <N>`)")
  match tokens with
  | [_, entity, count] =>
    if runner.py.isdigit count then do
      let node ← nodeFor runner "entity" compiled.entities entity
      let got := (obs.exec.repo.rows node.id).size
      return counted (entity ++ " rows") got (← intOf runner count)
    else unsupported
  | _ => unsupported

/-- `_expect_emitted`. -/
def expectEmitted (phrase : String) (tokens : List String) : Except Raised Check :=
  match tokens with
  | _ :: event :: rest => do
    let node ← nodeFor runner "event" compiled.events event
    let emissions := obs.exec.outbox.filter fun e => e.event = node.id
    let shown := toString emissions.length
    let unsupported : Except Raised Check :=
      refuse ("unsupported emitted expectation: " ++ runner.py.repr phrase ++ " (use `emitted " ++
        "<Name>`, `emitted <Name> count <N>`, or `emitted <Name> payload <field> " ++
        "exists|missing`)")
    let payload (field word : String) : Check :=
      let present := emissions.any fun e => !(Dict.get e.payload field).isNull
      (if word = "exists" then present else !present, event ++ " payload " ++ field ++
        " present=" ++ boolText present ++ " (emissions=" ++ shown ++ ")")
    match rest with
    | [] => return (!emissions.isEmpty, event ++ " emissions=" ++ shown)
    | ["count", count] =>
      if runner.py.isdigit count then
        return counted (event ++ " emissions") emissions.length (← intOf runner count)
      else unsupported
    | ["payload", field, "exists"] => return payload field "exists"
    | ["payload", field, "missing"] => return payload field "missing"
    | _ => unsupported
  | _ => refuse ("unsupported emitted expectation: " ++ runner.py.repr phrase)

/-- `_expect_error`. -/
def expectError (phrase : String) (tokens : List String) : Except Raised Check :=
  let unsupported : Except Raised Check :=
    refuse ("unsupported error expectation: " ++ runner.py.repr phrase ++ " (use `error step " ++
      "<name>` or `error reason <substring>`)")
  match tokens with
  | _ :: "step" :: name :: rest =>
    let got := obs.result.failure.map Interp.Failure.step
    let want := Front.unwords (name :: rest)
    .ok (got = some want, "failed_step=" ++ reprOption runner got ++ " want=" ++
      runner.py.repr want)
  | _ :: "reason" :: word :: rest =>
    let got := obs.result.failure.map Interp.Failure.reason
    let want := Front.unwords (word :: rest)
    .ok (got.any fun reason => want.toList <:+: reason.toList,
      "failure_reason=" ++ reprOption runner got)
  | _ => unsupported

/-- `_expect_effects`. -/
def expectEffects (phrase : String) (tokens : List String) : Except Raised Check :=
  let unsupported : Except Raised Check :=
    refuse ("unsupported effects expectation: " ++ runner.py.repr phrase ++
      " (use `effects <N>` or `effects complete`)")
  match tokens with
  | [_, "complete"] =>
    let idle := (obs.result.steps.filter fun s => s.effects.isEmpty).map Interp.StepRecord.step
    .ok (idle.isEmpty,
      if idle.isEmpty then "every step performed an effect"
      else "steps with no effect: " ++ ", ".intercalate idle)
  | [_, count] =>
    if runner.py.isdigit count then do
      let got := (obs.result.steps.map fun s => s.effects.length).sum
      return counted "effects" got (← intOf runner count)
    else unsupported
  | _ => unsupported

/-! ### The table -/

/-- The words of `EXPECTATIONS`. -/
inductive Expectation where
  | completed | failed | steps | slo | duration | cache | attempts | result | rows | emitted
  | error | effects
  deriving DecidableEq, Repr

def Expectation.word : Expectation → String
  | completed => "completed"
  | failed => "failed"
  | steps => "steps"
  | slo => "slo"
  | duration => "duration"
  | cache => "cache"
  | attempts => "attempts"
  | result => "result"
  | rows => "rows"
  | emitted => "emitted"
  | error => "error"
  | effects => "effects"

/-- The keys of `EXPECTATIONS`. -/
def expectations : List Expectation :=
  [.completed, .failed, .steps, .slo, .duration, .cache, .attempts, .result, .rows, .emitted,
   .error, .effects]

def Expectation.ofWord? (word : String) : Option Expectation :=
  expectations.find? fun kind => kind.word = word

/-- `EXPECTATIONS[key](phrase, result, interp)`. -/
def Expectation.check (kind : Expectation) (phrase : String) : Except Raised Check :=
  let tokens := Front.tokens phrase
  match kind with
  | completed => .ok (expectCompleted obs)
  | failed => .ok (expectFailed obs)
  | steps => expectStepCount runner obs tokens
  | slo => expectSlo runner obs phrase tokens
  | duration => expectDuration runner obs phrase tokens
  | cache => expectCache runner obs phrase tokens
  | attempts => expectAttempts runner obs tokens
  | result => expectResult runner compiled obs phrase
  | rows => expectRows runner compiled obs phrase tokens
  | emitted => expectEmitted runner compiled obs phrase tokens
  | error => expectError runner obs phrase tokens
  | effects => expectEffects runner obs phrase tokens

end Lnpl.Spec
