import Lnpl.Interp.Timestamps
import Lnpl.Interp.Validation

/-!
# Readable values

What `eval_value` can make of a value that validation has accepted.  The rules of the registry test
less than the codecs read: a timestamp may lack its zone designator, and Money has no rule, so a
value may be accepted that no number and no amount of money is read from (`Readable`).
-/

namespace Lnpl.Interp

open Front (Python)

variable (py : Python) (ops : JsonOps)

/-! ### What is read -/

/-- A whole timestamp, with a zone designator, whose numbers pass the checks of `encode_instant`. -/
def IsZoned (text : String) : Prop :=
  ∃ l : Layout, l.text = text.toList ∧ l.Fits (IsDecimal py) ∧
    (l.reading (decimalValue py)).Checked

/-- The amount in minor units that a sign, some digits and an exponent make. -/
def minorOf (negative : Bool) (digits : List Nat) (e : Int) : Int :=
  let unscaled : Int := numberOf digits * 10 ^ e.toNat
  if negative then -unscaled else unscaled

/-- An active currency, and a decimal text with as many decimals as the currency has, in range. -/
def IsAmount (amount currency : Json) : Prop :=
  ∃ text code places negative digits e, amount = .str text ∧ currency = .str code ∧
    exponent ops (.str code) = .ok places ∧
    decimalOf py text = some (.finite negative digits e) ∧ (-e).toNat = places ∧
    digits.length ≤ Front.intMaxStrDigits ∧
    int64Min ≤ minorOf negative digits e ∧ minorOf negative digits e ≤ int64Max

/-- A number, or an amount of money, is read from the value. -/
def Readable : Json → Prop
  | .bool _ | .int _ => True
  | .str text =>
    if looksLikeInstant py text then IsZoned py text else (intText py text).isSome = true
  | .obj fields => ∃ amount currency, fields.lookup "amount" = some amount ∧
      fields.lookup "currency" = some currency ∧ IsAmount py ops amount currency
  | _ => False

/-! ### How an evaluation ends -/

/-- A value that nothing can be read from is the cause. -/
def Cause.isMalformed : Cause → Bool
  | .instant | .nonNumeric | .digits | .money .encodePrecision => true
  | _ => false

/-- A result, or the error of the 64-bit range. -/
def Evaluates {α : Type} (result : Except EvalFault α) : Prop :=
  ∀ fault, result = .error fault → fault.cause = .range

/-- No value is malformed. -/
def WellFormed {α : Type} (result : Except EvalFault α) : Prop :=
  ∀ fault, result = .error fault → fault.cause.isMalformed = false

/-! ### Validated fields -/

/-- The types whose values are computed with. -/
def SemanticType.isComputed : SemanticType → Bool
  | .integer | .dateTime | .money => true
  | _ => false

/-- The base of a declared type. -/
def baseOf {py : Python} {ops : JsonOps} (refinements : Refinements py ops) (typeName : String) :
    Option SemanticType :=
  match refinements.lookup typeName with
  | some refinement => some refinement.base
  | none => SemanticType.ofName typeName

/-- How the values of a type evaluate that are accepted. -/
structure ReadAs (type : SemanticType) (value : Json) : Prop where
  evaluates : ∀ (r : Front.Ref) condition scope, resolveReference (refOf r.name) scope = value →
    (Evaluates (evalValue py ops condition scope (.operand (.ref r))) ↔ Readable py ops value)
  malformed : ¬ Readable py ops value → ∀ (r : Front.Ref) condition scope,
    resolveReference (refOf r.name) scope = value →
      ∃ fault, evalValue py ops condition scope (.operand (.ref r)) = .error fault ∧
        fault.cause.isMalformed = true
  integer : type = .integer → Readable py ops value
  dateTime : type = .dateTime →
    ∃ text, value = .str text ∧ looksLikeInstant py text = true ∧
      (Readable py ops value ↔ IsZoned py text)

/-- The name refers to an input field that was validated: to one of an integer type, or to one that
is absent or readable. -/
def ReadsValidated {py : Python} {ops : JsonOps} (refinements : Refinements py ops)
    (fields : List Field) (payload : Dict) (name : String) : Prop :=
  ∃ field ∈ fields, (refOf name = .bare field.name ∨
      refOf name = .qualified payloadNamespace field.name) ∧
    ∃ type, baseOf refinements field.type = some type ∧ type.isComputed = true ∧
      (type = .integer ∨ (Dict.get payload field.name).isNull = true ∨
        Readable py ops (Dict.get payload field.name))

/-- The names that the comparisons of a guard evaluate. -/
def comparedNames (cond : Front.Condition) : List String :=
  cond.comparisons.flatMap fun t => t.left.references ++ t.right.references

/-- Python's `str`: a text is its own, and no other value is written as a timestamp is. -/
structure TextLaws : Prop where
  text : ∀ s, ops.str (.str s) = s
  other : ∀ value, isDateTime py (ops.str value) = true → ∃ s, value = .str s

/-! ### Numeric predicates -/

/-- A number, or the error of the 64-bit range. -/
def ReadsNumber (result : Except EvalFault (Option Quantity)) : Prop :=
  (∃ n, result = .ok (some (.number n))) ∨ ∃ fault, result = .error fault ∧ fault.cause = .range

/-- The cause is an operand that no number is read from. -/
def Cause.isOperand : Cause → Bool
  | .range | .zeroDivisor => false
  | _ => true

/-- A comparison of a reference with a number, on either side. -/
def ComparesNumber (r : Front.Ref) (t : Front.Comparison) : Prop :=
  ∃ l, (t.left = .operand (.ref r) ∧ t.right = .operand (.lit l)) ∨
    (t.left = .operand (.lit l) ∧ t.right = .operand (.ref r))

/-- A guard that compares the reference and its fallback: neither fails on an operand, and exactly
one of them applies. -/
def DecidedTogether (names : List String) (condition : String) (scope : Scope) (r : Front.Ref)
    (t : Front.Comparison) : Prop :=
  (∀ fault, comparisonHolds py ops names condition scope t = .error fault →
    fault.cause.isOperand = false) ∧
  (comparisonHolds py ops names condition scope t = .ok true ↔
    numericPredicateHolds py scope ⟨r.name, .isNotNumeric⟩ = false)

/-- **Numeric predicates.**  `is-numeric` says whether `eval_value` reads a number, and
`is-not-numeric` is its negation; the guards of the two do not fail.  A comparison fails on an
operand only if one that it evaluates is not numeric, and where a reference is not numeric, it does
not hold with a number. -/
structure PredictsEvaluation (names : List String) (condition : String) (scope : Scope) : Prop where
  predicts : ∀ r : Front.Ref, numericPredicateHolds py scope ⟨r.name, .isNumeric⟩ = true ↔
    ReadsNumber (evalValue py ops condition scope (.operand (.ref r)))
  guards : ∀ name, ∃ numeric,
    parsedHolds py ops names condition scope (.term (.numericPredicate ⟨name, .isNumeric⟩)) =
      .ok numeric ∧
    parsedHolds py ops names condition scope (.term (.numericPredicate ⟨name, .isNotNumeric⟩)) =
      .ok !numeric
  raises : ∀ t, isTextTerm names t = false → ∀ fault,
    comparisonHolds py ops names condition scope t = .error fault → fault.cause.isOperand = true →
      ∃ name ∈ t.left.references ++ t.right.references,
        numericPredicateHolds py scope ⟨name, .isNotNumeric⟩ = true
  apart : ∀ r t, ComparesNumber r t → isTextTerm names t = false →
    numericPredicateHolds py scope ⟨r.name, .isNotNumeric⟩ = true →
      comparisonHolds py ops names condition scope t ≠ .ok true

end Lnpl.Interp
