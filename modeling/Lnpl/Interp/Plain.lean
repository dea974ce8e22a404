import Lnpl.Interp.Runtime

/-!
# Plain parts

What concrete runs are shown with.  The plain language knows `None`, booleans, integers and texts,
which behave as in Python; the right sides are the literals `1` and `2` and references to input
fields, and a condition is the presence of the input field `go`.  The silent drivers answer every
call and keep nothing.
-/

namespace Lnpl.Interp

namespace Json

/-- `str(value)`. -/
def plainStr : Json → String
  | .null => "None"
  | .bool b => if b then "True" else "False"
  | .int n => toString n
  | .float text => text
  | .str s => s
  | .arr _ => "[..]"
  | .obj _ => "(..)"

/-- A number or a boolean as an integer. -/
def number? : Json → Option Int
  | .bool b => some (if b then 1 else 0)
  | .int n => some n
  | _ => none

/-- `a < b`. -/
def plainLt : Json → Json → Except Exc Bool
  | .str a, .str b => .ok (a < b)
  | a, b =>
    match a.number?, b.number? with
    | some a, some b => .ok (a < b)
    | _, _ => .error (.other "TypeError")

/-- `a == b`. -/
def plainEq : Json → Json → Bool
  | .null, .null => true
  | .str a, .str b => a = b
  | a, b =>
    match a.number?, b.number? with
    | some a, some b => a = b
    | _, _ => false

end Json

/-- The value of a right side. -/
def plainValue (text : String) (s : Scope) : Json :=
  match text with
  | "1" => .int 1
  | "2" => .int 2
  | name => Dict.get s.payload name

/-- The plain language. -/
def Lang.plain : Lang where
  str := Json.plainStr
  repr t := "'" ++ t ++ "'"
  lt := Json.plainLt
  le a b := (Json.plainLt b a).map not
  eq := Json.plainEq
  conditionHolds _ _ s :=
    let value := Dict.get s.payload "go"
    .ok (!value.isNull, [⟨.bare "go", value, "exists", .null, !value.isNull⟩])
  assignmentValue text _ s _ := .ok (plainValue text s)
  predicateValue text s := .ok (plainValue text s)
  aggregate _ _ _ := .ok (.int 0)
  validate _ _ _ := .ok ()
  schemaGeneration _ := .str "1"

/-- A driver over one fixed table. -/
def Repo.silent (rows : List Dict) : Repo Unit where
  begin := pure ()
  commit := pure ()
  rollback := pure ()
  execute _ _ _ := pure .none
  query _ := pure rows
  persist _ _ row := pure row
  recordEmission _ := pure ()

/-- A cache that keeps nothing. -/
def Cache.silent : Cache Unit where
  get _ _ := pure none
  set _ _ _ _ := pure ()
  invalidate _ := pure ()

/-- A network where every call is answered by 200 and an empty body. -/
def Network.silent : Network Unit where
  call _ _ := pure (200, .obj [])

/-- A document of one workflow, without an entity. -/
def Document.single (wf : Workflow) : Document :=
  { entities := [], events := [], refinements := [], workflows := [wf] }

/-- One workflow on a repository driver. -/
def Runtime.plain (wf : Workflow) (repo : Repo Unit) : Runtime Unit Unit Unit where
  doc := .single wf
  lang := .plain
  repo := repo
  cache := .silent
  network := .silent

/-- The state of a new interpreter on silent drivers. -/
def Exec.plain : Exec Unit Unit Unit := { repo := (), cache := (), network := () }

end Lnpl.Interp
