import Lnpl.Front.Lexer

/-!
# Conditions and values

The reader and the printer of the guard language (`condition.py`).  A condition is a presence
check, a comparison, a numeric-shape check, or two or more of the latter two joined by `and`; the
right-hand side of an assignment is a value, an aggregate or a format call.  The IR keeps the
printed form and both modes read it again.
-/

namespace Lnpl.Front

/-! ### Operands and values -/

/-- A `Reference` operand: `stock`, `product.stock`, `input.quantity`. -/
structure Ref where
  name : String
  deriving DecidableEq, Repr

/-- An integer, or a duration in milliseconds. -/
structure Lit where
  value : Nat
  isDuration : Bool
  deriving DecidableEq, Repr

inductive Operand where
  | ref (r : Ref)
  | lit (l : Lit)
  deriving DecidableEq, Repr

/-- `ARITH_OPS`. -/
inductive ArithOp where
  | add | sub | mul | div
  deriving DecidableEq, Repr

def ArithOp.word : ArithOp → String
  | add => "+"
  | sub => "-"
  | mul => "*"
  | div => "/"

def ArithOp.ofWord? (tok : String) : Option ArithOp :=
  [add, sub, mul, div].find? fun op => op.word = tok

/-- Exactly one operator, never nested. -/
structure Arith where
  left : Operand
  op : ArithOp
  right : Operand
  deriving DecidableEq, Repr

inductive Value where
  | operand (o : Operand)
  | arith (a : Arith)
  deriving DecidableEq, Repr

/-- The operands of a value. -/
def Value.operands : Value → List Operand
  | .operand o => [o]
  | .arith a => [a.left, a.right]

/-! ### Right-hand sides -/

/-- `AGG_FUNCS`. -/
inductive AggFunc where
  | sum | count | avg | min | max
  deriving DecidableEq, Repr

def AggFunc.word : AggFunc → String
  | sum => "sum"
  | count => "count"
  | avg => "avg"
  | min => "min"
  | max => "max"

def AggFunc.ofWord? (tok : String) : Option AggFunc :=
  [sum, count, avg, min, max].find? fun f => f.word = tok

structure Aggregate where
  func : AggFunc
  ref : Ref
  deriving DecidableEq, Repr

/-- A template, without its quotes, and the references of the `with` clause. -/
structure FormatCall where
  template : String
  args : List Ref
  deriving DecidableEq, Repr

inductive AssignRHS where
  | value (v : Value)
  | aggregate (a : Aggregate)
  | format (f : FormatCall)
  deriving DecidableEq, Repr

/-! ### Conditions -/

/-- `PRESENCE_KINDS`. -/
inductive PresenceKind where
  | «exists» | missing
  deriving DecidableEq, Repr

def PresenceKind.word : PresenceKind → String
  | «exists» => "exists"
  | missing => "missing"

def PresenceKind.ofWord? (tok : String) : Option PresenceKind :=
  [«exists», missing].find? fun kind => kind.word = tok

structure Presence where
  field : String
  kind : PresenceKind
  deriving DecidableEq, Repr

/-- `NUMERIC_PREDICATE_KINDS`. -/
inductive NumericKind where
  | isNumeric | isNotNumeric
  deriving DecidableEq, Repr

def NumericKind.word : NumericKind → String
  | isNumeric => "is-numeric"
  | isNotNumeric => "is-not-numeric"

def NumericKind.ofWord? (tok : String) : Option NumericKind :=
  [isNumeric, isNotNumeric].find? fun kind => kind.word = tok

structure NumericPredicate where
  field : String
  kind : NumericKind
  deriving DecidableEq, Repr

/-- `COMPARATORS`. -/
inductive Comparator where
  | le | ge | eq | ne | lt | gt
  deriving DecidableEq, Repr

def Comparator.word : Comparator → String
  | le => "<="
  | ge => ">="
  | eq => "=="
  | ne => "!="
  | lt => "<"
  | gt => ">"

def Comparator.ofWord? (tok : String) : Option Comparator :=
  [le, ge, eq, ne, lt, gt].find? fun op => op.word = tok

structure Comparison where
  left : Value
  op : Comparator
  right : Value
  deriving DecidableEq, Repr

/-- What `and` joins. -/
inductive Term where
  | comparison (t : Comparison)
  | numericPredicate (t : NumericPredicate)
  deriving DecidableEq, Repr

/-- `<term> and <term> [and ...]`. -/
structure And where
  terms : List Term
  two_le : 2 ≤ terms.length
  deriving DecidableEq, Repr

inductive Condition where
  | presence (p : Presence)
  | term (t : Term)
  | and (a : And)
  deriving DecidableEq, Repr

/-! ### Names -/

/-- `_is_camel_name`. -/
def isCamelName (py : Python) (s : List Char) : Bool :=
  match s with
  | [] => false
  | ch :: _ => py.isLower ch && s.all py.isAlnum

/-- The words of the grammar that are no references. -/
def reservedNames : List String :=
  ["and", "to", "exists", "missing", "is-numeric", "is-not-numeric"]

/-- `_is_reference_name`: one or two camel-case segments. -/
def isReferenceName (py : Python) (s : String) : Bool :=
  if s ∈ reservedNames then false
  else
    let segments := s.toList.splitOn '.'
    if 2 < segments.length then false else segments.all (isCamelName py)

/-! ### Parsing -/

/-- `{text!r}` of a text that may be `None`. -/
def Python.reprText (py : Python) : Option String → String
  | none => "None"
  | some text => py.repr text

/-- `_parse_operand`. -/
def parseOperand (py : Python) (token : String) (text : Option String) : Except Fault Operand :=
  if py.isdigit token then
    match py.int token.toList with
    | .error e => .error e
    | .ok value =>
      if int64Max < value then
        .error (.condition (s!"integer literal {py.repr token} is past the 64-bit domain both " ++
            s!"modes compile to: {py.reprText text}"))
      else .ok (.lit ⟨value, false⟩)
  else
    match py.durationMsOrNone token with
    | .error (.overflow e) => .error (.condition s!"{e}: {py.reprText text}")
    | .error e => .error e
    | .ok (some duration) => .ok (.lit ⟨duration, true⟩)
    | .ok none =>
      if isReferenceName py token then .ok (.ref ⟨token⟩)
      else .error (.condition s!"invalid operand {py.repr token}: {py.reprText text}")

/-- `_parse_value`. -/
def parseValueTokens (py : Python) (ws : List String) (text : Option String) :
    Except Fault Value :=
  match ws with
  | [] => .error (.condition s!"missing operand: {py.reprText text}")
  | [token] => do
    let o ← parseOperand py token text
    return .operand o
  | [left, op, right] =>
    match ArithOp.ofWord? op with
    | none => .error (.condition (s!"invalid arithmetic operator {py.repr op}: " ++
        s!"{py.reprText text} (RFC-0028 supports `+` `-` `*` `/` only)"))
    | some op => do
      let left ← parseOperand py left text
      let right ← parseOperand py right text
      return .arith ⟨left, op, right⟩
  | ws => .error (.condition (s!"unsupported operand form {py.repr (unwords ws)}: " ++
      s!"{py.reprText text} (a value is `<operand>` or `<operand> +|- <operand>` — RFC-0015 " ++
      "does not nest arithmetic)"))

/-- Where the comparators stand, with the comparator at each place. -/
def opPositions (ws : List String) : List (Nat × Comparator) :=
  ws.zipIdx.filterMap fun entry => (Comparator.ofWord? entry.1).map fun op => (entry.2, op)

/-- The part of `_parse_term` that reads a comparison. -/
def parseComparison (py : Python) (ws : List String) (text : Option String) :
    Except Fault Comparison :=
  match opPositions ws with
  | [] =>
    -- the words of the condition are part of the format
    match py.percent (s!"no comparator in {py.repr (unwords ws)}: {py.reprText text} (expected " ++
        "one of %s, or `<field> exists|missing`)") "<= >= == != < >" with
    | .error e => .error e
    | .ok message => .error (.condition message)
  | [(place, op)] => do
    let left ← parseValueTokens py (ws.take place) text
    let right ← parseValueTokens py (ws.drop (place + 1)) text
    return ⟨left, op, right⟩
  | _ => .error (.condition (s!"more than one comparator in {py.repr (unwords ws)}: " ++
      s!"{py.reprText text} (chain range checks with `and` instead)"))

/-- The error for a field of a presence or numeric-shape check. -/
def fieldNameFault (py : Python) (text : Option String) : Fault :=
  .condition s!"field must be camelCase or binding.field: {py.reprText text}"

/-- `_parse_term`. -/
def parseTerm (py : Python) (ws : List String) (text : Option String) (allowPresence : Bool) :
    Except Fault Condition :=
  match ws with
  | [] | [_] => .error (.condition s!"condition too short: {py.reprText text}")
  | [field, word] =>
    match PresenceKind.ofWord? word, NumericKind.ofWord? word with
    | some kind, _ =>
      if !allowPresence then
        .error (.condition (s!"`{word}` cannot appear inside `and`: {py.reprText text} " ++
            "(RFC-0015: `and` combines comparisons only — write the presence check as its own " ++
            "guard)"))
      else if !isReferenceName py field then .error (fieldNameFault py text)
      else .ok (.presence ⟨field, kind⟩)
    | none, some kind =>
      if !isReferenceName py field then .error (fieldNameFault py text)
      else .ok (.term (.numericPredicate ⟨field, kind⟩))
    | none, none => do
      let t ← parseComparison py [field, word] text
      return .term (.comparison t)
  | ws => do
    let t ← parseComparison py ws text
    return .term (.comparison t)

/-- `_split_on_and`. -/
def splitOnAnd (py : Python) (ws : List String) (text : Option String) :
    Except Fault (List (List String)) :=
  let groups := ws.splitOn "and"
  if [] ∈ groups then
    .error (.condition s!"`and` needs a comparison on both sides: {py.reprText text}")
  else .ok groups

/-- The check of `And.__post_init__` on one term. -/
def Condition.asTerm : Condition → Except Fault Term
  | .term t => .ok t
  | _ => .error (.value "`and` combines comparisons and numeric-shape predicates only")

/-- `And(tuple(...))`, with its checks. -/
def andOf (terms : List Condition) : Except Fault Condition :=
  match terms.mapM Condition.asTerm with
  | .error e => .error e
  | .ok terms =>
    if h : 2 ≤ terms.length then .ok (.and ⟨terms, h⟩)
    else .error (.value "`and` needs at least two terms")

/-- `parse_condition`; `none` is the absent guard. -/
def parseCondition (py : Python) (text : Option String) : Except Fault (Option Condition) :=
  match tokens (text.getD "") with
  | [] => .ok none
  | ws =>
    match splitOnAnd py ws text with
    | .error e => .error e
    | .ok [group] => do
      let cond ← parseTerm py group text true
      return some cond
    | .ok groups => do
      let terms ← groups.mapM fun group => parseTerm py group text false
      let cond ← andOf terms
      return some cond

/-! ### Right-hand sides of assignments -/

/-- `_parse_aggregate`, after its function word. -/
def parseAggregate (py : Python) (func : AggFunc) (rest : List String) (text : Option String) :
    Except Fault Aggregate :=
  match rest with
  | [token] =>
    if isReferenceName py token then .ok ⟨func, ⟨token⟩⟩
    else .error (.condition ("aggregate reference must be camelCase or binding.field: " ++
        s!"{py.reprText text}"))
  | _ => .error (.condition (s!"aggregate needs exactly one reference: {py.reprText text} (the " ++
      "form is `sum <ref>` or `count <ref>`)"))

/-- `_parse_template_token`. -/
def parseTemplateToken (py : Python) (token : String) (text : Option String) :
    Except Fault String :=
  let chars := token.toList
  if chars.length < 2 ∨ chars.head? ≠ some '"' ∨ chars.getLast? ≠ some '"' then
    .error (.condition ("format template must be one double-quoted word, no spaces: " ++
        s!"{py.reprText text}"))
  else
    let template := chars.tail.dropLast
    if '"' ∈ template then
      .error (.condition s!"format template contains an embedded quote: {py.reprText text}")
    else .ok (String.ofList template)

/-- The argument of a `with` clause that one word is read as. -/
def parseArgument (py : Python) (text : Option String) (token : String) : Except Fault Ref :=
  if isReferenceName py token then .ok ⟨token⟩
  else .error (.condition ("format argument must be camelCase or binding.field: " ++
      s!"{py.reprText text}"))

/-- `_parse_with_clause`. -/
def parseWithClause (py : Python) (rest : List String) (text : Option String) :
    Except Fault (List Ref) :=
  match rest with
  | [] => .ok []
  | word :: args =>
    if word ≠ "with" then
      .error (.condition ("format takes only `with <ref>...` after its template: " ++
          s!"{py.reprText text}"))
    else if args.isEmpty then
      .error (.condition s!"format `with` needs at least one reference: {py.reprText text}")
    else args.mapM (parseArgument py text)

/-- `template.count` of the placeholder, an opening and a closing brace. -/
def countPlaceholders : List Char → Nat
  | '\x7b' :: '\x7d' :: chars => countPlaceholders chars + 1
  | _ :: chars => countPlaceholders chars
  | [] => 0

/-- `_check_placeholder_count`. -/
def checkPlaceholderCount (py : Python) (template : String) (args : List Ref)
    (text : Option String) : Except Fault Unit :=
  let placeholders := countPlaceholders template.toList
  if placeholders ≠ args.length then
    .error (.condition (s!"format template {py.repr template} has {placeholders} `\x7b\x7d` " ++
      s!"placeholder(s) but `with` gives {args.length} argument(s): {py.reprText text}"))
  else .ok ()

/-- `_parse_format_rhs`, after its first word. -/
def parseFormatRhs (py : Python) (rest : List String) (text : Option String) :
    Except Fault FormatCall :=
  match rest with
  | [] => .error (.condition s!"missing format template: {py.reprText text}")
  | token :: rest => do
    let template ← parseTemplateToken py token text
    let args ← parseWithClause py rest text
    return ⟨template, args⟩

/-- `_parse_value_or_aggregate`. -/
def parseRhsTokens (py : Python) (ws : List String) (text : Option String) :
    Except Fault AssignRHS :=
  match ws with
  | [] => .value <$> parseValueTokens py [] text
  | word :: rest =>
    match AggFunc.ofWord? word with
    | some func => .aggregate <$> parseAggregate py func rest text
    | none =>
      if word = "format" then .format <$> parseFormatRhs py rest text
      else .value <$> parseValueTokens py (word :: rest) text

/-- `parse_value_or_aggregate`. -/
def parseValueOrAggregate (py : Python) (text : Option String) : Except Fault AssignRHS :=
  match tokens (text.getD "") with
  | [] => .error (.condition s!"missing value: {py.reprText text}")
  | ws => parseRhsTokens py ws text

/-- `parse_assignment`. -/
def parseAssignment (py : Python) (text : Option String) : Except Fault (String × AssignRHS) :=
  match tokens (text.getD "") with
  | "set" :: rest =>
    if "to" ∉ rest then
      .error (.condition (s!"assignment needs `to`: {py.reprText text} (the form is `set " ++
          "<binding>.<field> to <value>`)"))
    else
      let place := rest.idxOf "to"
      let valueTokens := rest.drop (place + 1)
      match rest.take place with
      | [target] =>
        if !isReferenceName py target then
          .error (.condition ("assignment target must be camelCase or binding.field: " ++
              s!"{py.reprText text}"))
        else if valueTokens.isEmpty then
          .error (.condition s!"assignment needs a value after `to`: {py.reprText text}")
        else do
          let rhs ← parseRhsTokens py valueTokens text
          return (target, rhs)
      | _ => .error (.condition s!"assignment target must be one reference: {py.reprText text}")
  | _ => .error (.condition s!"assignment must start with `set`: {py.reprText text}")

/-- The form that `parse_format` asks for, as its messages give it. -/
def formatForm : String := "(the form is `format <target> from \"<template>\" [with <ref>...]`)"

/-- `parse_format`. -/
def parseFormat (py : Python) (text : Option String) : Except Fault (String × FormatCall) :=
  match tokens (text.getD "") with
  | "format" :: target :: keyword :: token :: rest =>
    if !isReferenceName py target then
      .error (.condition s!"format target must be camelCase or binding.field: {py.reprText text}")
    else if keyword ≠ "from" then
      .error (.condition s!"format needs `from` after its target: {py.reprText text} {formatForm}")
    else do
      let template ← parseTemplateToken py token text
      let args ← parseWithClause py rest text
      checkPlaceholderCount py template args text
      return (target, ⟨template, args⟩)
  | "format" :: _ =>
    .error (.condition (s!"format needs a target and `from \"<template>\"`: {py.reprText text} " ++
        s!"{formatForm}"))
  | _ => .error (.condition s!"format step must start with `format`: {py.reprText text}")

/-! ### References -/

/-- `name.partition(".")`, if there is a dot. -/
def partitionName (name : String) : Option (String × String) :=
  let chars := name.toList
  if '.' ∈ chars then
    some (String.ofList (chars.takeWhile (· ≠ '.')),
      String.ofList ((chars.dropWhile (· ≠ '.')).drop 1))
  else none

def Operand.references : Operand → List String
  | .ref r => [r.name]
  | .lit _ => []

def Value.references : Value → List String
  | .operand o => o.references
  | .arith a => a.left.references ++ a.right.references

def Term.references : Term → List String
  | .comparison t => t.left.references ++ t.right.references
  | .numericPredicate t => [t.field]

/-- `references` of a condition; the absent guard has none. -/
def Condition.references : Option Condition → List String
  | none => []
  | some (.presence p) => [p.field]
  | some (.term t) => t.references
  | some (.and a) => a.terms.flatMap Term.references

/-- `references` of a right-hand side. -/
def AssignRHS.references : AssignRHS → List String
  | .value v => v.references
  | .aggregate a => [a.ref.name]
  | .format f => f.args.map Ref.name

/-! ### Printing -/

/-- `_DURATION_RENDER`: the largest unit first. -/
def durationRender : List (String × Nat) :=
  [("d", 86400000), ("h", 3600000), ("m", 60000), ("s", 1000), ("ms", 1)]

/-- The coarsest exact unit; a value without one is printed in milliseconds. -/
def durationToString (value : Nat) : String :=
  match durationRender.find? fun entry => value ≠ 0 ∧ value % entry.2 = 0 with
  | some (unit, mult) => s!"{value / mult}{unit}"
  | none => s!"{value}ms"

def Operand.toText : Operand → String
  | .ref r => r.name
  | .lit l => if l.isDuration then durationToString l.value else toString l.value

def Value.toText : Value → String
  | .operand o => o.toText
  | .arith a => s!"{a.left.toText} {a.op.word} {a.right.toText}"

/-- `value_to_string`. -/
def valueToString : AssignRHS → String
  | .value v => v.toText
  | .aggregate a => s!"{a.func.word} {a.ref.name}"
  | .format f =>
    let rendered := s!"format \"{f.template}\""
    if f.args.isEmpty then rendered
    else rendered ++ " with " ++ unwords (f.args.map Ref.name)

def Term.toText : Term → String
  | .comparison t => s!"{t.left.toText} {t.op.word} {t.right.toText}"
  | .numericPredicate t => s!"{t.field} {t.kind.word}"

/-- `condition_to_string`. -/
def conditionToString : Option Condition → Option String
  | none => none
  | some (.presence p) => some s!"{p.field} {p.kind.word}"
  | some (.term t) => some t.toText
  | some (.and a) => some (" and ".intercalate (a.terms.map Term.toText))

end Lnpl.Front
