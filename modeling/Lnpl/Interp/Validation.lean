import Mathlib.Algebra.Order.Ring.Unbundled.Rat
import Mathlib.Order.WithBot
import Lnpl.Interp.Dimensions
import Lnpl.Interp.Document
import Lnpl.Lib.FirstError

/-!
# Validation

`validate_effect` with what it applies: the rule that the registry of `types.py` gives to a semantic
type (`check_semantic_type`), and the facets with which a refinement narrows one (`_check_facets`).
The search for a regular expression is that of the running Python.
-/

namespace Lnpl.Interp

open Front (Python)

/-! ### The registry -/

/-- The keys of `SEMANTIC_TYPES`. -/
inductive SemanticType where
  | uuid | email | password | dateTime | phone | money | currency | geoLocation | address | image
  | file | json | html | markdown | text | integer | decimal | boolean
  deriving DecidableEq, Repr

namespace SemanticType

def name : SemanticType → String
  | uuid => "UUID"
  | email => "Email"
  | password => "Password"
  | dateTime => "DateTime"
  | phone => "Phone"
  | money => "Money"
  | currency => "Currency"
  | geoLocation => "GeoLocation"
  | address => "Address"
  | image => "Image"
  | file => "File"
  | json => "Json"
  | html => "Html"
  | markdown => "Markdown"
  | text => "Text"
  | integer => "Integer"
  | decimal => "Decimal"
  | boolean => "Boolean"

def all : List SemanticType :=
  [uuid, email, password, dateTime, phone, money, currency, geoLocation, address, image, file, json,
   html, markdown, text, integer, decimal, boolean]

/-- `SEMANTIC_TYPES.get(name)`. -/
def ofName (name : String) : Option SemanticType := all.find? fun type => type.name = name

end SemanticType

/-- The classes that a rule tests a value for; an `int` is no `bool`. -/
inductive PyType where
  | str
  | int
  | bool
  deriving DecidableEq, Repr

/-- `check` of an entry of the registry. -/
inductive TypeRule where
  /-- `re.match` of the text of a value -/
  | pattern (holds : Python → String → Bool)
  | py (type : PyType)
  | nonempty

def SemanticType.check : SemanticType → Option TypeRule
  | uuid => some (.pattern fun _ => isUuid)
  | email => some (.pattern fun _ => isEmail)
  | password => some .nonempty
  | dateTime => some (.pattern isDateTime)
  | text => some (.py .str)
  | integer => some (.py .int)
  | boolean => some (.py .bool)
  | phone | money | currency | geoLocation | address | image | file | json | html | markdown
  | decimal => none

/-- The categories of `refinements.py`. -/
inductive Category where
  | text
  | numeric
  | boolean
  | composite
  deriving DecidableEq, Repr

/-- `BASE_CATEGORY`. -/
def SemanticType.category : SemanticType → Category
  | uuid | email | password | dateTime | phone | currency | html | markdown | text => .text
  | integer | decimal => .numeric
  | boolean => .boolean
  | money | geoLocation | address | image | file | json => .composite

/-! ### Decimals -/

/-- What `Decimal` reads a text as, up to the digits it keeps: a number, an infinity among them, or
what is not a number. -/
inductive Numeral where
  | number (value : WithBot (WithTop ℚ))
  | nan

/-- `MAX_EMAX` of `decimal`. -/
def maxEmax : Int := 999999999999999999

/-- `MIN_ETINY` of `decimal`. -/
def minEtiny : Int := -1999999999999999997

/-- A text that is not finite as a numeral. -/
def specialNumeral (text : String) : Numeral :=
  let (negative, body) := splitSign ((stripSpace text.toList).filter (· ≠ '_'))
  match body.map Char.toLower with
  | 'i' :: _ => .number (if negative then ⊥ else ((⊤ : WithTop ℚ) : WithBot (WithTop ℚ)))
  | _ => .nan

/-- `Decimal(text)`; `none` is an `InvalidOperation`, also of an exponent that no context has. -/
def numeralOf (py : Python) (text : String) : Option Numeral :=
  match decimalOf py text with
  | none => none
  | some .special => some (specialNumeral text)
  | some (.finite negative digits e) =>
    if minEtiny ≤ e ∧ e + digits.length - 1 ≤ maxEmax then
      let value : ℚ := numberOf digits * (10 : ℚ) ^ e
      let signed : ℚ := if negative then -value else value
      some (.number (signed : WithTop ℚ))
    else none

/-- `a < b`; `none` is an `InvalidOperation`. -/
def Numeral.lt? : Numeral → Numeral → Option Bool
  | .number a, .number b => some (a < b)
  | _, _ => none

/-- `a > b`. -/
def Numeral.gt? (a b : Numeral) : Option Bool := b.lt? a

/-! ### Refinements -/

variable (py : Python) (ops : JsonOps) (search : String → String → Bool)

/-- The value of a `min` or a `max`; lowering reads it as an integer or a float, which is no NaN. -/
structure Limit where
  value : Json
  bound : WithBot (WithTop ℚ)
  reads : numeralOf py (ops.str value) = some (.number bound)

/-- The facets of a refinement. -/
structure Facets where
  minLength : Option Nat := none
  maxLength : Option Nat := none
  pattern : Option String := none
  min : Option (Limit py ops) := none
  max : Option (Limit py ops) := none
  «enum» : Option (List Json) := none

/-- A `Refinement` node; lowering gives it only facets that apply to the category of its base. -/
structure Refinement where
  base : SemanticType
  facets : Facets py ops
  textual : base.category ≠ .text →
    facets.minLength = none ∧ facets.maxLength = none ∧ facets.pattern = none
  numeric : base.category ≠ .numeric → facets.min = none ∧ facets.max = none

/-- `refinement_index`. -/
abbrev Refinements := List (String × Refinement py ops)

/-! ### Checks -/

/-- `raise RunError(message)`. -/
def raiseRun (message : String) : Except Exc Unit := .error (.run { message := message })

/-- `if condition: raise RunError(message)`. -/
def raiseIf (condition : Bool) (message : String) : Except Exc Unit :=
  if condition then raiseRun message else .ok ()

def Json.isBool : Json → Bool
  | .bool _ => true
  | _ => false

/-- `isinstance(value, type)`, where a `bool` is no `int`. -/
def PyType.isInstance : PyType → Json → Bool
  | .str, .str _ => true
  | .int, .int _ => true
  | .bool, .bool _ => true
  | _, _ => false

variable {py ops}

/-- `if name in facets:` before a check of its value. -/
def ifGiven {α : Type} (facet : Option α) (check : α → Except Exc Unit) : Except Exc Unit :=
  match facet with
  | none => .ok ()
  | some a => check a

/-- The `enum` of `_check_facets`. -/
def checkEnum (facets : Facets py ops) (value : Json) (fieldName typeName : String) :
    Except Exc Unit :=
  ifGiven facets.enum fun members =>
    raiseIf (value.isBool || !members.any (ops.eq value)) ("field " ++ py.repr fieldName ++
      " is not one of " ++ typeName ++ "'s enum values " ++ ops.repr (.arr members))

/-- The facets of a text. -/
def checkText (facets : Facets py ops) (value : Json) (fieldName typeName : String) :
    Except Exc Unit := do
  let text := ops.str value
  ifGiven facets.minLength fun n =>
    raiseIf (text.length < n) ("field " ++ py.repr fieldName ++ " is shorter than " ++ typeName ++
      "'s minLength " ++ toString n ++ " (" ++ toString text.length ++ ")")
  ifGiven facets.maxLength fun n =>
    raiseIf (n < text.length) ("field " ++ py.repr fieldName ++ " is longer than " ++ typeName ++
      "'s maxLength " ++ toString n ++ " (" ++ toString text.length ++ ")")
  ifGiven facets.pattern fun pattern =>
    raiseIf (!search pattern text) ("field " ++ py.repr fieldName ++ " does not match " ++
      typeName ++ "'s pattern " ++ py.repr pattern)

/-- One of the two facets of a number, `beyond` being the comparison that violates it.  The
comparison is not guarded as the conversion of the value is. -/
def checkLimit (beyond : Numeral → Numeral → Option Bool) (facet : String)
    (limit : Option (Limit py ops)) (value : Json) (fieldName typeName : String) :
    Except Exc Unit :=
  ifGiven limit fun limit =>
    match numeralOf py (ops.str value), numeralOf py (ops.str limit.value) with
    | none, _ => raiseRun ("field " ++ py.repr fieldName ++ " is not a number, so " ++ typeName ++
        "'s " ++ facet ++ " cannot be applied")
    | some number, some limitNumber =>
      match beyond number limitNumber with
      | none => .error (.other "InvalidOperation")
      | some violated => raiseIf violated ("field " ++ py.repr fieldName ++ " violates " ++
          typeName ++ "'s " ++ facet ++ " " ++ ops.str limit.value)
    | some _, none => .error (.other "InvalidOperation")

/-- `_check_facets`. -/
def checkFacets (refinement : Refinement py ops) (value : Json) (fieldName typeName : String) :
    Except Exc Unit := do
  let facets := refinement.facets
  checkEnum facets value fieldName typeName
  match refinement.base.category with
  | .text => checkText search facets value fieldName typeName
  | .numeric =>
    checkLimit Numeral.lt? "min" facets.min value fieldName typeName
    checkLimit Numeral.gt? "max" facets.max value fieldName typeName
  | .boolean | .composite => .ok ()

variable (py ops)

/-- `check_semantic_type` of a name that no refinement has. -/
def checkBase (typeName : String) (value : Json) (fieldName : String) : Except Exc Unit :=
  if typeName = "semantic-types" then .ok ()
  else if value.isNull then raiseRun ("field " ++ py.repr fieldName ++ " is null")
  else
    let invalid := "field " ++ py.repr fieldName ++ " is not a valid " ++ typeName
    match (SemanticType.ofName typeName).bind SemanticType.check with
    | none => .ok ()
    | some (.pattern holds) => raiseIf (!holds py (ops.str value)) invalid
    | some (.py type) => raiseIf (!type.isInstance value) invalid
    | some .nonempty =>
      raiseIf (ops.str value = "") ("field " ++ py.repr fieldName ++ " is empty")

variable {py ops}

/-- `check_semantic_type`. -/
def checkSemanticType (refinements : Refinements py ops) (typeName : String) (value : Json)
    (fieldName : String) : Except Exc Unit :=
  if typeName = "semantic-types" then .ok ()
  else if value.isNull then raiseRun ("field " ++ py.repr fieldName ++ " is null")
  else
    match refinements.lookup typeName with
    | some refinement => do
      checkBase py ops refinement.base.name value fieldName
      checkFacets search refinement value fieldName typeName
    | none => checkBase py ops typeName value fieldName

/-! ### Effects -/

/-- What validation reads of a node. -/
structure DeclNode where
  kind : String
  fields : List Field

/-- A `Validation` effect. -/
structure ValidationEffect where
  target : String
  rule : String
  deriving DecidableEq, Repr

/-- `text.rpartition(".")`, without the separator. -/
def rpartitionDot (text : String) : String × String :=
  let chars := text.toList.reverse
  match chars.dropWhile (· ≠ '.') with
  | [] => ("", text)
  | _ :: before =>
    (String.ofList before.reverse, String.ofList (chars.takeWhile (· ≠ '.')).reverse)

/-- The value of a field, unless it is left out as an optional one may be. -/
def checkGiven (refinements : Refinements py ops) (payload : Dict) (isOptional : Bool)
    (typeName fieldName : String) : Except Exc Unit :=
  if isOptional && (Dict.get payload fieldName).isNull then .ok ()
  else
    match payload[fieldName]? with
    | none => raiseRun ("missing required field " ++ py.repr fieldName)
    | some value => checkSemanticType search refinements typeName value fieldName

/-- One field of an entity that is validated. -/
def checkField (refinements : Refinements py ops) (payload : Dict) (field : Field) :
    Except Exc Unit :=
  if field.derived then
    raiseIf payload[field.name]?.isSome ("field " ++ py.repr field.name ++
      " is derived (server-computed) and must not be supplied in the payload")
  else checkGiven search refinements payload field.optional field.type field.name

/-- `validate_effect`. -/
def validateEffect (nodes : List (String × DeclNode)) (refinements : Refinements py ops)
    (effect : ValidationEffect) (payload : Dict) : Except Exc Unit :=
  if effect.rule = "semantic-types" then
    match nodes.lookup effect.target with
    | some node =>
      if node.kind = "Entity" then
        node.fields.foldlM (fun _ field => checkField search refinements payload field) ()
      else raiseRun ("validation references undeclared entity " ++ py.repr effect.target)
    | none => raiseRun ("validation references undeclared entity " ++ py.repr effect.target)
  else
    let (entityId, fieldName) := rpartitionDot effect.target
    let field := (nodes.lookup entityId).bind fun node =>
      node.fields.find? fun field => field.name = fieldName
    checkGiven search refinements payload ((field.map Field.optional).getD false) effect.rule
      fieldName

/-! ### What lowering accepts -/

/-- A field as lowering admits it. -/
structure Field.Lowered (field : Field) : Prop where
  dotless : '.' ∉ field.name.toList
  type : field.type ≠ "semantic-types"
  modifiers : field.derived = true → field.optional = false

variable (py ops)

/-- What validation reads of a document. -/
structure Declarations where
  nodes : List (String × DeclNode)
  refinements : Refinements py ops
  lowered : ∀ entry ∈ nodes, ∀ field ∈ entry.2.fields, field.Lowered

variable {py ops}

/-- The effects that lowering derives: of an entity, or of the field of it that the step names. -/
inductive Validation (doc : Declarations py ops) where
  | entity (id : String) (node : DeclNode) (declared : doc.nodes.lookup id = some node)
      (kind : node.kind = "Entity")
  | field (id : String) (node : DeclNode) (declared : doc.nodes.lookup id = some node)
      (field : Field) (named : node.fields.find? (fun f => f.name = field.name) = some field)

variable {doc : Declarations py ops}

def Validation.effect : Validation doc → ValidationEffect
  | entity id _ _ _ => ⟨id, "semantic-types"⟩
  | field id _ _ f _ => ⟨id ++ "." ++ f.name, f.type⟩

/-- The fields that an effect is about. -/
def Validation.fields : Validation doc → List Field
  | entity _ node _ _ => node.fields
  | field _ _ _ f _ => [f]

/-! ### The law -/

variable (py ops)

/-- The value satisfies the rule of the type. -/
def SemanticType.Holds (type : SemanticType) (value : Json) : Prop :=
  match type.check with
  | none => True
  | some (.pattern holds) => holds py (ops.str value) = true
  | some (.py t) => t.isInstance value = true
  | some .nonempty => ops.str value ≠ ""

variable {py ops}

/-- The value is one of the members; a boolean is none, whatever it equals. -/
def Facets.Admit (facets : Facets py ops) (value : Json) : Prop :=
  ∀ members, facets.enum = some members →
    value.isBool = false ∧ ∃ member ∈ members, ops.eq value member = true

/-- The value satisfies all facets. -/
structure Facets.Hold (facets : Facets py ops) (value : Json) : Prop where
  enum : facets.Admit value
  minLength : ∀ n, facets.minLength = some n → n ≤ (ops.str value).length
  maxLength : ∀ n, facets.maxLength = some n → (ops.str value).length ≤ n
  pattern : ∀ pattern, facets.pattern = some pattern → search pattern (ops.str value) = true
  min : ∀ limit, facets.min = some limit →
    ∃ x, numeralOf py (ops.str value) = some (.number x) ∧ limit.bound ≤ x
  max : ∀ limit, facets.max = some limit →
    ∃ x, numeralOf py (ops.str value) = some (.number x) ∧ x ≤ limit.bound

/-- The value satisfies the base of a declared type, and its facets. -/
def Satisfies (refinements : Refinements py ops) (typeName : String) (value : Json) : Prop :=
  match refinements.lookup typeName with
  | some refinement => refinement.base.Holds py ops value ∧ refinement.facets.Hold search value
  | none => ∀ type, SemanticType.ofName typeName = some type → type.Holds py ops value

/-- The payload is valid for the fields. -/
structure Valid (refinements : Refinements py ops) (fields : List Field) (payload : Dict) :
    Prop where
  derived : ∀ field ∈ fields, field.derived = true → payload[field.name]? = none
  required : ∀ field ∈ fields, field.derived = false → field.optional = false →
    (Dict.get payload field.name).isNull = false
  satisfied : ∀ field ∈ fields, ∀ value, payload[field.name]? = some value →
    value.isNull = false → Satisfies search refinements field.type value

/-- Only a `RunError` is raised. -/
def Clean (result : Except Exc Unit) : Prop := ∀ e, result = .error e → e.isRunError = true

/-- An effect raises nothing but a `RunError`, and returns on the valid payloads. -/
structure Judges (effect : Validation doc) (payload : Dict) : Prop where
  clean : Clean (validateEffect search doc.nodes doc.refinements effect.effect payload)
  returns : validateEffect search doc.nodes doc.refinements effect.effect payload = .ok () ↔
    Valid search doc.refinements effect.fields payload

/-! ### The condition -/

/-- The value is read as what is not a number, and no check refuses it before it is compared. -/
def Unordered (refinements : Refinements py ops) (typeName : String) (value : Json) : Prop :=
  ∃ refinement, refinements.lookup typeName = some refinement ∧
    (refinement.facets.min.isSome ∨ refinement.facets.max.isSome) ∧
    value.isNull = false ∧ refinement.base.Holds py ops value ∧ refinement.facets.Admit value ∧
    numeralOf py (ops.str value) = some .nan

/-- No field has a value that cannot be compared, unless a field before it is not valid; and a
derived field is validated alone only with a value that its type refuses. -/
def Validation.Orderly (payload : Dict) : Validation doc → Prop
  | entity _ node _ _ =>
    Lib.NoneBefore (fun f => ¬ Valid search doc.refinements [f] payload)
      (fun f => f.derived = false ∧
        ∃ value, payload[f.name]? = some value ∧ Unordered doc.refinements f.type value)
      node.fields
  | field _ _ _ f _ =>
    (∀ value, payload[f.name]? = some value → ¬ Unordered doc.refinements f.type value) ∧
    (f.derived = true → ∃ value, payload[f.name]? = some value ∧
      (value.isNull = true ∨ ¬ Satisfies search doc.refinements f.type value))

end Lnpl.Interp
