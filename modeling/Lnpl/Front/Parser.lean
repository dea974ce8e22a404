import Lnpl.Front.WorkflowBody

/-!
# The parser

`parse` on the lines of a source: a top-level keyword opens a declaration, a bare clause keyword
opens a clause of it, and the other lines go to the body, the content or the open clause of the
declaration.
-/

namespace Lnpl.Front

/-- `KEYWORDS_TOP`. -/
inductive DeclKind where
  | entity | service | workflow | event | capability | refine
  deriving DecidableEq, Repr

def DeclKind.word : DeclKind → String
  | entity => "entity"
  | service => "service"
  | workflow => "workflow"
  | event => "event"
  | capability => "capability"
  | refine => "refine"

def DeclKind.ofWord? (tok : String) : Option DeclKind :=
  [entity, service, workflow, event, capability, refine].find? fun kind => kind.word = tok

def serviceClauses : List String :=
  ["goal", "policy", "security", "performance", "database", "expose"]

def specSections : List String := ["given", "when", "expect"]

def workflowClauses : List String := "spec" :: specSections

/-- `CLAUSE_OWNER`. -/
def clauseOwner (head : String) : String := if head ∈ serviceClauses then "service" else "entity"

/-- A `spec` block of a workflow; the last three fields are scratch. -/
structure Spec where
  given : List Line
  «when» : List Line
  expect : List Line
  lineno : Nat
  opened : List String
  indent : Nat
  sectionIndent : Option Nat

/-- A top-level declaration; `items` are the content lines of a kind that has no clauses. -/
structure Decl where
  kind : DeclKind
  name : String
  lineno : Nat
  clauses : List (String × List Line)
  items : List Line
  body : Body
  http : Bool
  on : Option (String × String)
  schedule : Option (String × String × String)
  version : Option String
  base : Option String
  specs : List Spec

/-- `Decl(kind, name, lineno)`. -/
def Decl.new (kind : DeclKind) (name : String) (lineno : Nat) : Decl where
  kind := kind
  name := name
  lineno := lineno
  clauses := []
  items := []
  body := Body.empty
  http := false
  on := none
  schedule := none
  version := none
  base := none
  specs := []

/-! ### Headers -/

/-- The message for a malformed source of an event. -/
def eventSourceFault (line : Line) : ParseFault :=
  .parse (s!"line {line.lineno}: event source must be `on <Entity> create|update|delete` or `on " ++
      "schedule <every> at <HH:MM> <zone>`")

/-- The source of an event, the words after its name. -/
def eventSource (py : Python) (d : Decl) (rest : List String) (line : Line) :
    Except ParseFault Decl :=
  match rest with
  | [] => .ok d
  | "on" :: "schedule" :: words =>
    match words with
    | [every, "at", time, zone] => .ok { d with schedule := some (every, time, zone) }
    | _ => .error (.parse (s!"line {line.lineno}: a schedule source must be `on schedule " ++
        "<every> at <HH:MM> <zone>` (for example: `on schedule daily at 00:00 UTC`)"))
  | ["on", entity, trigger] =>
    if trigger ∈ ["create", "update", "delete"] then .ok { d with on := some (entity, trigger) }
    else .error (.parse (s!"line {line.lineno}: event trigger must be create|update|delete, got " ++
        s!"{py.repr trigger}"))
  | "on" :: _ => .error (.parse (s!"line {line.lineno}: event source must be `on <Entity> " ++
      "create|update|delete`"))
  | _ => .error (eventSourceFault line)

/-- A line that starts with a top-level keyword. -/
def openDecl (py : Python) (kind : DeclKind) (line : Line) : Except ParseFault Decl :=
  match line.rest with
  | [] => .error (.parse s!"line {line.lineno}: {py.repr line.head} needs a name")
  | name :: rest =>
    let d := Decl.new kind name line.lineno
    match kind with
    | .capability =>
      if name = "http" then
        match rest with
        | [name] => .ok { Decl.new kind name line.lineno with http := true }
        | _ => .error (.parse (s!"line {line.lineno}: `capability http` takes exactly one name " ++
            "— `capability http <Name>`"))
      else .ok { d with version := rest.head? }
    | .event => eventSource py d rest line
    | .refine =>
      match rest with
      | ["of", base] => .ok { d with base := some base }
      | _ => .error (.parse (s!"line {line.lineno}: refinement must be `refine <Name> of " ++
          "<BaseType>`"))
    | _ =>
      if rest = [] then .ok d
      else .error (.parse (s!"line {line.lineno}: unexpected trailing tokens after `{line.head} " ++
          s!"{name}`"))

/-! ### Clauses -/

/-- `cur.clauses.setdefault(head, [])`. -/
def Decl.openClause (d : Decl) (head : String) : Decl :=
  if d.clauses.any fun clause => clause.1 = head then d
  else { d with clauses := d.clauses ++ [(head, [])] }

/-- `cur.clauses[cur_clause].append(line)`. -/
def Decl.appendClause (d : Decl) (head : String) (line : Line) : Decl :=
  let append (clause : String × List Line) :=
    if clause.1 = head then (clause.1, clause.2 ++ [line]) else clause
  { d with clauses := d.clauses.map append }

/-- `block[cur_clause].append(line)`. -/
def Spec.append (spec : Spec) (head : String) (line : Line) : Spec :=
  if head = "given" then { spec with given := spec.given ++ [line] }
  else if head = "when" then { spec with «when» := spec.when ++ [line] }
  else { spec with expect := spec.expect ++ [line] }

/-- The `spec` blocks with the last one replaced. -/
def Decl.setSpec (d : Decl) (spec : Spec) : Decl := { d with specs := d.specs.dropLast ++ [spec] }

/-- A bare clause keyword of a workflow. -/
def workflowClauseLine (d : Decl) (line : Line) : Except ParseFault Decl :=
  if line.head ∉ workflowClauses then
    let owner := clauseOwner line.head
    .error (.parse (s!"line {line.lineno}: `{line.head}` is a `{owner}` clause and cannot " ++
        s!"appear in a `workflow` body; move it to the owning `{owner}` declaration — a " ++
        "workflow takes steps and an optional `spec` block (RFC-0002 §Full grammar: " ++
        "WorkflowItem* SpecClause?)"))
  else if line.head = "spec" then
    .ok { d with specs := d.specs ++ [⟨[], [], [], line.lineno, [], line.indent, none⟩] }
  else
    match d.specs.getLast? with
    | none => .error (.parse (s!"line {line.lineno}: `{line.head}` belongs inside a `spec` " ++
        "block; open one with `spec` before it (RFC-0002 §Full grammar: SpecClause)"))
    | some spec =>
      if line.head ∈ spec.opened then
        .error (.parse (s!"line {line.lineno}: a second `{line.head}` inside one spec block — " ++
            "open a new `spec` block per scenario"))
      else
        let opened := line.head :: spec.opened
        .ok (d.setSpec { spec with opened := opened, sectionIndent := some line.indent })

/-- A bare clause keyword. -/
def clauseLine (py : Python) (d : Decl) (line : Line) : Except ParseFault Decl :=
  match d.kind with
  | .entity =>
    if line.head ≠ "field" then
      .error (.parse (s!"line {line.lineno}: entity allows only the `field` clause, got " ++
          s!"{py.repr line.head}"))
    else .ok (d.openClause line.head)
  | .service =>
    if line.head ∉ serviceClauses then
      let allowed := "/".intercalate serviceClauses
      .error (.parse s!"line {line.lineno}: service allows {allowed}, got {py.repr line.head}")
    else .ok (d.openClause line.head)
  | .workflow => do
    let d ← workflowClauseLine d line
    return d.openClause line.head
  | kind => .error (.parse s!"line {line.lineno}: {kind.word} takes no clauses")

/-- A line of a section of a `spec` block: only a column can say that a step was meant. -/
def sectionLine (d : Decl) (clause : String) (line : Line) : Except ParseFault Decl :=
  match d.specs.getLast? with
  | none => .ok (d.appendClause clause line)
  | some spec =>
    if (∃ indent ∈ spec.sectionIndent, spec.indent < indent) ∧ line.indent ≤ spec.indent then
      .error (.parse (s!"line {line.lineno}: a workflow step cannot follow the `spec` block " ++
          s!"opened on line {spec.lineno} — a workflow's steps come before its `spec` (RFC-0002 " ++
          "§Full grammar: WorkflowItem* SpecClause?); move this line above the block"))
    else .ok (d.setSpec (spec.append clause line))

/-- `%r` of the words of a line. -/
def Python.reprTokens (py : Python) (line : Line) : String :=
  "[" ++ ", ".intercalate (line.tokens.map py.repr) ++ "]"

/-- The message for a line that no clause takes. -/
def contentFault (py : Python) (d : Decl) (line : Line) : ParseFault :=
  let start := s!"line {line.lineno}: content line {py.reprTokens line} outside any clause — "
  match d.kind with
  | .service =>
    .parse (start ++ "a `service` declaration opens: " ++ ", ".intercalate serviceClauses)
  | .entity => .parse (start ++ "an `entity` declaration opens: field")
  | kind =>
    let article := if kind = .event then "an" else "a"
    .parse (start ++ s!"{article} `{kind.word}` declaration takes no clause lines")

/-- A line of a declaration, with the clause that is open. -/
def contentLine (py : Python) (cur : Decl × Option String) (line : Line) :
    Except ParseFault (Decl × Option String) :=
  if line.head ∈ keywordsClause ∧ line.rest = [] then do
    let d ← clauseLine py cur.1 line
    return (d, some line.head)
  else
    match cur.2 with
    | none =>
      match cur.1.kind with
      | .workflow => do
        let body ← appendWorkflowItem py cur.1.body line
        return ({ cur.1 with body := body }, none)
      | .refine | .event => .ok ({ cur.1 with items := cur.1.items ++ [line] }, none)
      | .capability =>
        if cur.1.http then .ok ({ cur.1 with items := cur.1.items ++ [line] }, none)
        else .error (contentFault py cur.1 line)
      | _ => .error (contentFault py cur.1 line)
    | some clause =>
      if cur.1.kind = .workflow ∧ clause ∈ specSections then do
        let d ← sectionLine cur.1 clause line
        return (d, some clause)
      else .ok (cur.1.appendClause clause line, some clause)

/-! ### The source -/

/-- The declarations that are finished, and the current one with its open clause. -/
structure ParseState where
  done : List Decl
  cur : Option (Decl × Option String)

/-- One line of the source. -/
def parseLine (py : Python) (st : ParseState) (line : Line) : Except ParseFault ParseState :=
  match DeclKind.ofWord? line.head, st.cur with
  | some kind, cur => do
    let d ← openDecl py kind line
    return ⟨st.done ++ (cur.map Prod.fst).toList, some (d, none)⟩
  | none, none => .error (.parse (s!"line {line.lineno}: {py.repr line.head} appears before any " ++
      "declaration"))
  | none, some cur => do
    let cur ← contentLine py cur line
    return ⟨st.done, some cur⟩

/-- A `spec` block without its scratch fields. -/
def Spec.finish (spec : Spec) : Spec :=
  { spec with opened := [], indent := 0, sectionIndent := none }

/-- What is done with a declaration at the end of the source. -/
def finishDecl (d : Decl) : Except ParseFault Decl := do
  let items ← finishBody d.name d.body
  return { d with body := { Body.empty with items := items }, specs := d.specs.map Spec.finish }

/-- `parse`, on the lines that `tokenize` returns. -/
def parse (py : Python) (lines : List Line) : Except ParseFault (List Decl) := do
  let st ← lines.foldlM (parseLine py) ⟨[], none⟩
  (st.done ++ (st.cur.map Prod.fst).toList).mapM finishDecl

/-! ### What the tree is to be -/

/-- A line that opens a declaration. -/
def Line.isTop (line : Line) : Bool := (DeclKind.ofWord? line.head).isSome

/-- The declarations of a source: the header and the lines up to the next one. -/
def declLines : List Line → List (Line × List Line)
  | [] => []
  | line :: lines =>
    if line.isTop then (line, lines.takeWhile fun l => !l.isTop) :: declLines lines
    else declLines lines

/-- A line that opens a `spec` block. -/
def Line.isSpec (line : Line) : Bool := line.head = "spec" ∧ line.rest = []

/-- The lines of a workflow before its first `spec`. -/
def bodyLines (lines : List Line) : List Line := lines.takeWhile fun line => !line.isSpec

def Spec.flat (spec : Spec) : Spec :=
  { spec with
    given := spec.given.map Line.flat
    «when» := spec.when.map Line.flat
    expect := spec.expect.map Line.flat
    indent := 0
    sectionIndent := spec.sectionIndent.map fun _ => 0 }

/-- A declaration without its columns. -/
def Decl.flat (d : Decl) : Decl :=
  { d with
    clauses := d.clauses.map fun clause => (clause.1, clause.2.map Line.flat)
    items := d.items.map Line.flat
    body := d.body.flat
    specs := d.specs.map Spec.flat }

/-- Every line belongs to a declaration, every body of a workflow conserves its lines, and the
columns decide nothing: without them the source is accepted with the same tree, and so is every
other layout that is accepted. -/
structure StructureConserved (py : Python) (lines : List Line) (decls : List Decl) : Prop where
  covered : lines = (declLines lines).flatMap fun decl => decl.1 :: decl.2
  bodies : List.Forall₂ (fun source d =>
    d.lineno = source.1.lineno ∧ d.kind.word = source.1.head ∧
      (d.kind = .workflow → Conserved (bodyLines source.2) d.body.items)) (declLines lines) decls
  flat : parse py (lines.map Line.flat) = .ok (decls.map Decl.flat)
  layout : ∀ lines' decls', lines'.map Line.flat = lines.map Line.flat →
    parse py lines' = .ok decls' → decls'.map Decl.flat = decls.map Decl.flat

end Lnpl.Front
