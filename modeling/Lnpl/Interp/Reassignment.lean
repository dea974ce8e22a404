import Lnpl.Interp.Interpreter

/-!
# Assignments under retry

An Assignment writes its value into the bound row before it calls `persist`, and a `persist` that
raises leaves it there.  So the next attempt of the step evaluates the right side in the scope that
the failed one has left (`Assign.reread`).
-/

namespace Lnpl.Interp

variable {ρ χ ν : Type} (rt : Runtime ρ χ ν) (call : Call)

/-- The data of an Assignment. -/
structure Assign where
  id : String
  binding : String
  field : String
  expression : String
  aggFieldType : Option String

namespace Assign

def effect (a : Assign) : Effect :=
  .assignment a.id a.binding a.field a.expression a.aggFieldType

/-- The value of the right side in the scope as it is; none where it cannot be evaluated. -/
def value (a : Assign) (s : Exec ρ χ ν) : Option Json :=
  match rt.lang.assignmentValue a.expression a.aggFieldType (s.scope rt call) s.rowsets with
  | .ok value => if value.isNull then none else some value
  | .error _ => none

/-- The entity that a row of the target is persisted under. -/
def entityOf (a : Assign) (row : Row) : Option String :=
  (rt.doc.entityIdForBinding a.binding).orElse fun _ => row.entityId

def entity (a : Assign) (s : Exec ρ χ ν) : Option String :=
  s.bindings[a.binding]?.bind (a.entityOf rt)

/-- The execution after a `persist` of the value has raised, as far as the scope goes. -/
def failed (a : Assign) (value : Json) (s : Exec ρ χ ν) : Exec ρ χ ν :=
  match s.bindings[a.binding]? with
  | none => s
  | some row =>
    match a.entityOf rt row with
    | none => s
    | some entity =>
      s.bind a.binding { row with
        toStored := unstamped rt (rt.doc.entity? entity) (row.toStored.set a.field value) }

/-- The value of the right side after so many failed attempts, each of which has left its own. -/
def reread (a : Assign) : Nat → Exec ρ χ ν → Option Json
  | 0, s => a.value rt call s
  | n + 1, s => (a.value rt call s).bind fun value => a.reread n (a.failed rt value s)

/-- The target is the key of the stamp that is put on the row and taken off again. -/
def reserved (a : Assign) (s : Exec ρ χ ν) : Bool :=
  decide (a.field = schemaGenKey) && !rt.repo.isFake &&
    (a.entity rt s).any fun entity => (rt.doc.entity? entity).isSome

/-- The row that `persist` was handed last, and the row bound, carry the value that the right side
had before the first attempt. -/
def AppliedOnce (a : Assign) (s t : Exec ρ χ ν) : Prop :=
  ∃ value, a.value rt call s = some value ∧
    (t.bindings[a.binding]?.bind fun row => row.data[a.field]?) = some value ∧
    ∃ entity key handed written r, a.entity rt s = some entity ∧
      rt.repo.persist entity key handed r = .ok written t.repo ∧
      handed.data[a.field]? = some value

end Assign

end Lnpl.Interp
