import Std.Data.ExtTreeMap

/-!
# Values, rows and exceptions of the interpreter

JSON values, the rows that bindings hold, references and how they resolve, and what a call may
raise.
-/

namespace Lnpl.Interp

/-- A JSON value.  A float keeps its text. -/
inductive Json where
  | null
  | bool (b : Bool)
  | int (n : Int)
  | float (text : String)
  | str (s : String)
  | arr (items : List Json)
  | obj (fields : List (String × Json))

/-- `MASK`. -/
def mask : Json := .str "***"

/-- A dict with string keys. -/
abbrev Dict := Std.ExtTreeMap String Json

/-- `d.get(key)`: `None` and a missing key are one answer. -/
def Dict.get (d : Dict) (key : String) : Json := d[key]?.getD .null

/-- `value is None`. -/
def Json.isNull : Json → Bool
  | .null => true
  | _ => false

/-- A row object of a driver: its fields, and the `observed_version` that a versioning driver keeps
on the rows it hands out. -/
structure Stored where
  data : Dict
  observedVersion : Option Nat := none

/-- `SCHEMA_GEN_KEY`. -/
def schemaGenKey : String := "_schema_gen"

/-- A bound row object.  `entityId` is `_CreatedRow.entity_id`.  `origin` is bookkeeping of the
model: the entity and key the row was read or created under. -/
structure Row extends Stored where
  entityId : Option String := none
  origin : Option (String × String) := none

/-- A reference, split at its first dot. -/
inductive Ref where
  | bare (name : String)
  | qualified (binding field : String)
deriving DecidableEq, Repr

/-- The text of a reference. -/
def Ref.text : Ref → String
  | .bare name => name
  | .qualified binding field => binding ++ "." ++ field

/-- `CALLER_NAMESPACE`. -/
def callerNamespace : String := "caller"

/-- `PAYLOAD_NAMESPACE`. -/
def payloadNamespace : String := "input"

/-- The single-row bindings of a run. -/
abbrev Bindings := Std.ExtTreeMap String Row

/-- The RowSet bindings of a run. -/
abbrev RowSets := Std.ExtTreeMap String (List Dict)

/-- What a reference can see. -/
structure Scope where
  payload : Dict
  bindings : Bindings
  caller : Option Dict

/-- `resolve_reference`. -/
def resolveReference (r : Ref) (scope : Scope) : Json :=
  match r with
  | .bare name => Dict.get scope.payload name
  | .qualified binding field =>
    if binding = callerNamespace then
      match scope.caller with
      | none => .null
      | some caller => Dict.get caller field
    else if binding = payloadNamespace then Dict.get scope.payload field
    else
      match scope.bindings[binding]? with
      | none => .null
      | some row => Dict.get row.data field

/-- The class of a `DriverError`. -/
inductive DriverErrorClass where
  | driverError
  | conflictError
  | writeConflictError
deriving DecidableEq, Repr

/-- A `RunError`: its text, the `failure_kind` it carries, and the `DriverError` it was raised
from. -/
structure RunError where
  message : String
  failureKind : Option String := none
  cause : Option DriverErrorClass := none
deriving DecidableEq, Repr

/-- What a call may raise. -/
inductive Exc where
  | run (e : RunError)
  | driver (cls : DriverErrorClass) (message : String)
  /-- any other Python exception, by its class -/
  | other (cls : String)
deriving DecidableEq, Repr

/-- `except RunError` catches it. -/
def Exc.isRunError : Exc → Bool
  | .run _ => true
  | _ => false

/-- `except DriverError as exc: raise RunError(str(exc)) from exc`. -/
def Exc.translated : Exc → Exc
  | .driver cls message => .run { message := message, cause := some cls }
  | e => e

end Lnpl.Interp
