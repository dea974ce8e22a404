import Lnpl.Interp.Equiv.Dimensions
import Lnpl.Interp.Equiv.Instants
import Lnpl.Interp.Equiv.Validation
import Lnpl.Interp.Readable

/-!
# Validated values evaluate

A value that validation accepts for an Integer, a DateTime or a Money field, or a refinement of one,
evaluates up to the range iff it is readable: those of an Integer are, those of a DateTime iff they
are wholly a zoned timestamp (`validated_values`).  No guard and no assignment over validated input
fields fails on a malformed value, where the DateTime and Money values among them are readable.
-/

namespace Lnpl.Interp

open Front (Python)

variable {py : Python} {ops : JsonOps}

/-! ### Amounts -/

variable {e : MoneyFault} {text name : String} {α : Type} {a b : Pair}

theorem exponent_error {currency : Json} (h : exponent ops currency = .error e) :
    ∃ message, e = .money .encodePrecision message := by
  unfold exponent at h
  cases currency with
  | str text =>
    dsimp only at h
    cases hshape : isAlpha3 text with
    | false =>
      rw [hshape] at h
      exact ⟨_, (Except.error.inj h).symm⟩
    | true =>
      simp only [hshape, Bool.not_true, if_neg Bool.false_ne_true] at h
      cases hlookup : currencyExponent.lookup text with
      | some places =>
        rw [hlookup] at h
        cases h
      | none =>
        rw [hlookup] at h
        dsimp only at h
        split_ifs at h
        exact ⟨_, (Except.error.inj h).symm⟩
  | _ => exact ⟨_, (Except.error.inj h).symm⟩

/-- What an amount is refused with: its code, or the `ValueError` of too many digits. -/
def MoneyFault.IsRefusal (e : MoneyFault) : Prop :=
  (∃ message, e = .money .encodePrecision message) ∨ ∃ message, e = .value message

/-- An amount is encoded, or it is refused. -/
theorem encodeMoney_cases (amount currency : Json) :
    (∃ minor code, encodeMoney py ops amount currency = .ok (minor, code) ∧
      IsAmount py ops amount currency) ∨
    ∃ e : MoneyFault, encodeMoney py ops amount currency = .error e ∧ e.IsRefusal ∧
      ¬ IsAmount py ops amount currency := by
  cases hplaces : exponent ops currency with
  | error e =>
    refine .inr ⟨e, ?_, .inl (exponent_error hplaces), ?_⟩
    · unfold encodeMoney
      rw [hplaces]
      rfl
    · rintro ⟨_, code, places, _, _, _, -, rfl, hok, -⟩
      exact absurd (hplaces.symm.trans hok) nofun
  | ok places =>
    unfold encodeMoney
    rw [hplaces]
    dsimp only [bind, Except.bind]
    cases amount with
    | str text =>
      cases currency with
      | str code =>
        dsimp only
        cases hdecimal : decimalOf py text with
        | none =>
          refine .inr ⟨_, rfl, .inl ⟨_, rfl⟩, ?_⟩
          rintro ⟨_, _, _, _, _, _, htext, -, -, hfinite, -⟩
          obtain rfl := Json.str.inj htext
          exact absurd (hdecimal.symm.trans hfinite) nofun
        | some decimal =>
          cases decimal with
          | special =>
            refine .inr ⟨_, rfl, .inl ⟨_, rfl⟩, ?_⟩
            rintro ⟨_, _, _, _, _, _, htext, -, -, hfinite, -⟩
            obtain rfl := Json.str.inj htext
            exact absurd (hdecimal.symm.trans hfinite) nofun
          | finite negative digits e =>
            have hamount : IsAmount py ops (.str text) (.str code) ↔ (-e).toNat = places ∧
                digits.length ≤ Front.intMaxStrDigits ∧ int64Min ≤ minorOf negative digits e ∧
                minorOf negative digits e ≤ int64Max := by
              constructor
              · rintro ⟨_, _, places', negative', digits', e', htext, hcode, hok, hfinite, hexact⟩
                obtain rfl := Json.str.inj htext
                obtain rfl := Json.str.inj hcode
                obtain ⟨rfl, rfl, rfl⟩ :=
                  Decimal.finite.inj (Option.some.inj (hdecimal.symm.trans hfinite))
                obtain rfl := Except.ok.inj (hplaces.symm.trans hok)
                exact hexact
              · intro h
                exact ⟨text, code, places, negative, digits, e, rfl, rfl, hplaces, hdecimal, h⟩
            rw [hamount]
            dsimp only
            by_cases hexact : (-e).toNat = places
            · rw [if_neg (not_not.mpr hexact)]
              by_cases hlong : Front.intMaxStrDigits < digits.length
              · rw [if_pos hlong]
                exact .inr ⟨_, rfl, .inr ⟨_, rfl⟩, fun h => absurd hlong (not_lt.mpr h.2.1)⟩
              · rw [if_neg hlong]
                by_cases hrange : int64Min ≤ minorOf negative digits e ∧
                    minorOf negative digits e ≤ int64Max
                · refine .inl ⟨minorOf negative digits e, code, if_pos ?_, hexact, not_lt.mp hlong,
                    hrange⟩
                  exact hrange
                · refine .inr ⟨_, if_neg ?_, .inl ⟨_, rfl⟩, fun h => hrange h.2.2⟩
                  exact hrange
            · rw [if_pos hexact]
              exact .inr ⟨_, rfl, .inl ⟨_, rfl⟩, fun h => hexact h.1⟩
      | _ => exact absurd hplaces nofun
    | _ =>
      refine .inr ⟨_, rfl, .inl ⟨_, rfl⟩, ?_⟩
      rintro ⟨_, _, _, _, _, _, htext, -⟩
      exact absurd htext nofun

/-! ### Instants -/

/-- The whole timestamps are those that `encode_instant` accepts. -/
theorem isZoned_iff (hpy : DecimalDigits py) (text place : String) :
    IsZoned py text ↔ ∃ ms, encodeInstant py text place = .ok ms := by
  constructor
  · rintro ⟨l, hl, hfits, hchecked⟩
    have htext : text = String.ofList l.text := by rw [hl, String.ofList_toList]
    exact ⟨_, htext ▸ (encodeInstant_text hpy hfits place _).mpr ⟨hchecked, rfl⟩⟩
  · rintro ⟨ms, hms⟩
    cases hinstant : instantOf py text with
    | none =>
      rw [encodeInstant, hinstant] at hms
      dsimp only at hms
      split_ifs at hms
    | some t =>
      obtain ⟨l, hl, hfits, -⟩ := instantOf_eq_some hinstant
      have htext : text = String.ofList l.text := by rw [hl, String.ofList_toList]
      rw [htext] at hms
      exact ⟨l, hl, hfits, ((encodeInstant_text hpy hfits place ms).mp hms).1⟩

theorem looksLikeInstant_of_isInstantText (h : isInstantText py text = true) :
    looksLikeInstant py text = true := by
  obtain ⟨t, ht⟩ := Option.isSome_iff_exists.mp h
  rw [instantOf] at ht
  obtain ⟨⟨stamp, rest⟩, hstamp, -⟩ := Option.bind_eq_some_iff.mp ht
  exact Option.isSome_iff_exists.mpr ⟨_, hstamp⟩

/-- What is dispatched to `encode_instant` has the shape of a timestamp. -/
theorem isInstant_or_looksLike :
    (isInstantText py text || looksLikeInstant py text) = looksLikeInstant py text := by
  cases hlooks : looksLikeInstant py text with
  | true => exact Bool.or_true _
  | false =>
    rw [Bool.or_false]
    by_contra h
    exact absurd (looksLikeInstant_of_isInstantText (Bool.of_not_eq_false h)) (by simp [hlooks])

/-! ### References -/

variable {n : Int} {x : Except EvalFault α}

theorem checked_error {condition : String} {e : EvalFault}
    (h : checked py n name condition = .error e) : e.cause = .range := by
  unfold checked at h
  split_ifs at h
  obtain rfl := Except.error.inj h
  rfl

theorem evaluates_ok {a : α} : Evaluates (.ok a : Except EvalFault α) := fun _ h => nomatch h

/-- A number in range evaluates. -/
theorem evaluates_checked {condition : String} :
    Evaluates (Quantity.number <$> checked py n name condition) := by
  intro fault h
  cases hc : checked py n name condition with
  | ok m =>
    rw [hc] at h
    cases h
  | error e =>
    rw [hc] at h
    obtain rfl := Except.error.inj h
    exact checked_error hc

/-- A value evaluates where it is readable, and else it is malformed. -/
theorem evalRaw_cases (hpy : DecimalDigits py) (name condition : String) (raw : Json) :
    (Readable py ops raw ∧ Evaluates (evalRaw py ops name condition raw)) ∨
    (¬ Readable py ops raw ∧ ∃ fault, evalRaw py ops name condition raw = .error fault ∧
      fault.cause.isMalformed = true) := by
  cases raw with
  | null => exact .inr ⟨id, _, rfl, rfl⟩
  | float text => exact .inr ⟨id, _, rfl, rfl⟩
  | arr items => exact .inr ⟨id, _, rfl, rfl⟩
  | bool b => exact .inl ⟨trivial, evaluates_ok⟩
  | int n => exact .inl ⟨trivial, evaluates_checked⟩
  | str text =>
    simp only [Readable, evalRaw, isInstant_or_looksLike]
    cases hlooks : looksLikeInstant py text with
    | true =>
      simp only [if_true]
      cases hms : encodeInstant py text name with
      | ok ms => exact .inl ⟨(isZoned_iff hpy text name).mpr ⟨ms, hms⟩, evaluates_checked⟩
      | error message =>
        refine .inr ⟨fun hzoned => ?_, _, rfl, rfl⟩
        obtain ⟨ms, hok⟩ := (isZoned_iff hpy text name).mp hzoned
        cases hms.symm.trans hok
    | false =>
      simp only [if_neg Bool.false_ne_true]
      cases intText py text with
      | none => exact .inr ⟨Bool.false_ne_true, _, rfl, rfl⟩
      | some n => exact .inl ⟨rfl, evaluates_checked⟩
  | obj fields =>
    simp only [Readable, evalRaw]
    cases hamount : fields.lookup "amount" with
    | none =>
      refine .inr ⟨?_, _, rfl, rfl⟩
      rintro ⟨_, _, h, -⟩
      cases h
    | some amount =>
      cases hcurrency : fields.lookup "currency" with
      | none =>
        refine .inr ⟨?_, _, rfl, rfl⟩
        rintro ⟨_, _, -, h, -⟩
        cases h
      | some currency =>
        have hread : (∃ a b, some amount = some a ∧ some currency = some b ∧ IsAmount py ops a b) ↔
            IsAmount py ops amount currency := by simp
        rw [hread]
        dsimp only
        rcases encodeMoney_cases amount currency with
          ⟨minor, code, hok, his⟩ | ⟨e, herror, hrefusal, hnot⟩
        · rw [hok]
          exact .inl ⟨his, evaluates_ok⟩
        · rw [herror]
          rcases hrefusal with ⟨message, rfl⟩ | ⟨message, rfl⟩
          · exact .inr ⟨hnot, _, rfl, rfl⟩
          · exact .inr ⟨hnot, _, rfl, rfl⟩

theorem evaluates_some {x : Except EvalFault Quantity} :
    Evaluates (some <$> x) ↔ Evaluates x := by
  cases x with
  | ok q => exact ⟨fun _ => nofun, fun _ => nofun⟩
  | error e =>
    have hmap : (some <$> (.error e : Except EvalFault Quantity)) = .error e := rfl
    constructor
    · intro h fault hfault
      obtain rfl := Except.error.inj hfault
      exact h e hmap
    · intro h fault hfault
      rw [hmap] at hfault
      obtain rfl := Except.error.inj hfault
      exact h e rfl

/-- A reference to a value that is not null evaluates as the value does. -/
theorem evalValue_ref {r : Front.Ref} {condition : String} {scope : Scope} {value : Json}
    (hvalue : resolveReference (refOf r.name) scope = value) (hnull : value.isNull = false) :
    evalValue py ops condition scope (.operand (.ref r)) =
      some <$> evalRaw py ops r.name condition value := by
  rw [evalValue, evalOperand, hvalue]
  cases value with
  | null => exact absurd hnull Bool.true_eq_false.mp
  | _ => rfl

/-! ### Accepted values -/

section

variable {search : String → String → Bool} {refinements : Refinements py ops} {typeName : String}
variable {type : SemanticType} {value : Json}

/-- What satisfies a declared type satisfies the rule of its base. -/
theorem holds_of_satisfies (h : Satisfies search refinements typeName value)
    (hbase : baseOf refinements typeName = some type) : type.Holds py ops value := by
  rw [Satisfies] at h
  rw [baseOf] at hbase
  cases hlookup : refinements.lookup typeName with
  | none =>
    rw [hlookup] at h hbase
    exact h type hbase
  | some refinement =>
    rw [hlookup] at h hbase
    obtain rfl := Option.some.inj hbase
    exact h.1

/-- The rule of an Integer lets only integers pass. -/
theorem readable_of_integer (h : SemanticType.integer.Holds py ops value) :
    Readable py ops value := by
  cases value with
  | int n => trivial
  | _ => exact absurd h Bool.false_ne_true

/-- The rule of a DateTime lets only texts pass that begin as a timestamp. -/
theorem isText_of_dateTime (laws : TextLaws py ops) (h : SemanticType.dateTime.Holds py ops value) :
    ∃ text, value = .str text ∧ looksLikeInstant py text = true := by
  have h : isDateTime py (ops.str value) = true := h
  obtain ⟨text, rfl⟩ := laws.other value h
  rw [laws.text, isDateTime, Bool.and_eq_true] at h
  exact ⟨text, rfl, h.1⟩

theorem readAs_of_holds (hpy : DecimalDigits py) (laws : TextLaws py ops)
    (h : type.Holds py ops value) (hnull : value.isNull = false) : ReadAs py ops type value where
  evaluates := by
    intro r condition scope hvalue
    rw [evalValue_ref hvalue hnull, evaluates_some]
    rcases evalRaw_cases hpy r.name condition value with
      ⟨hread, heval⟩ | ⟨hread, fault, hfault, hcause⟩
    · exact ⟨fun _ => hread, fun _ => heval⟩
    · refine ⟨fun heval => ?_, fun h => absurd h hread⟩
      rw [heval fault hfault] at hcause
      exact absurd hcause Bool.false_ne_true
  malformed := by
    intro hread r condition scope hvalue
    rw [evalValue_ref hvalue hnull]
    rcases evalRaw_cases hpy r.name condition value with ⟨h, -⟩ | ⟨-, fault, hfault, hcause⟩
    · exact absurd h hread
    · exact ⟨fault, by rw [hfault]; rfl, hcause⟩
  integer := by
    rintro rfl
    exact readable_of_integer h
  dateTime := by
    rintro rfl
    obtain ⟨text, rfl, hlooks⟩ := isText_of_dateTime laws h
    refine ⟨text, rfl, hlooks, ?_⟩
    rw [Readable, if_pos hlooks]

end

/-! ### No malformed value -/

theorem wellFormed_error {fault : EvalFault} (h : fault.cause.isMalformed = false) :
    WellFormed (.error fault : Except EvalFault α) := by
  intro fault' hfault
  obtain rfl := Except.error.inj hfault
  exact h

theorem wellFormed_ok {a : α} : WellFormed (.ok a : Except EvalFault α) := fun _ h => nomatch h

theorem wellFormed_bind {β : Type} {f : α → Except EvalFault β} (hx : WellFormed x)
    (hf : ∀ a, WellFormed (f a)) : WellFormed (x >>= f) := by
  cases x with
  | ok a => exact hf a
  | error e => exact wellFormed_error (hx e rfl)

theorem WellFormed.of_cause {cause : Cause} (h : ∀ fault, x = .error fault → fault.cause = cause)
    (hcause : cause.isMalformed = false) :
    WellFormed x := by
  intro fault hfault
  rw [h fault hfault, hcause]

theorem wellFormed_checked (n : Int) (name condition : String) :
    WellFormed (checked py n name condition) :=
  .of_cause (fun _ => checked_error) rfl

/-- An operand that is absent or readable is not malformed. -/
theorem wellFormed_operand (hpy : DecimalDigits py) {condition : String} {scope : Scope}
    {o : Front.Operand}
    (h : ∀ r, o = .ref r → (resolveReference (refOf r.name) scope).isNull = true ∨
      Readable py ops (resolveReference (refOf r.name) scope)) :
    WellFormed (evalOperand py ops condition scope o) := by
  cases o with
  | lit l => exact wellFormed_ok
  | ref r =>
    cases hnull : (resolveReference (refOf r.name) scope).isNull with
    | true =>
      rw [evalOperand]
      cases hvalue : resolveReference (refOf r.name) scope with
      | null => exact wellFormed_ok
      | _ => simp [hvalue, Json.isNull] at hnull
    | false =>
      have hread := (h r rfl).resolve_left (by simp [hnull])
      have heval : evalValue py ops condition scope (.operand (.ref r)) = _ :=
        evalValue_ref rfl hnull
      rw [evalValue] at heval
      rw [heval]
      rcases evalRaw_cases hpy r.name condition _ with ⟨-, hevaluates⟩ | ⟨hnot, -⟩
      · exact .of_cause (evaluates_some.mpr hevaluates) rfl
      · exact absurd hread hnot

/-- The arithmetic of money refuses no amount. -/
def MoneyFault.IsArithmetic (e : MoneyFault) : Prop :=
  ∃ code message, e = .money code message ∧ code ≠ .encodePrecision

theorem mismatch_error {verb : String} (h : (mismatch verb a b : Except MoneyFault α) = .error e) :
    e.IsArithmetic :=
  ⟨_, _, (Except.error.inj h).symm, by decide⟩

theorem inDomain_error {minor : Int} {currency : String} (h : inDomain minor currency = .error e) :
    e.IsArithmetic := by
  unfold inDomain at h
  split_ifs at h
  exact ⟨_, _, (Except.error.inj h).symm, by decide⟩

theorem addMoney_error (h : addMoney a b = .error e) : e.IsArithmetic := by
  unfold addMoney at h
  split_ifs at h
  exact mismatch_error h

theorem subMoney_error (h : subMoney a b = .error e) : e.IsArithmetic := by
  unfold subMoney at h
  split_ifs at h
  · exact mismatch_error h
  · exact inDomain_error h

theorem compareMoney_error (h : compareMoney a b = .error e) : e.IsArithmetic := by
  unfold compareMoney at h
  split_ifs at h
  exact mismatch_error h

theorem wellFormed_inCondition {condition : String} {x : Except MoneyFault α}
    (h : ∀ e, x = .error e → e.IsArithmetic) : WellFormed (inCondition py condition x) := by
  intro fault hfault
  cases x with
  | ok a => cases hfault
  | error e =>
    obtain ⟨code, message, rfl, hcode⟩ := h e rfl
    obtain rfl := Except.error.inj hfault
    cases code with
    | encodePrecision => exact absurd rfl hcode
    | currencyMismatch => rfl
    | range => rfl

theorem wellFormed_arith (a : Front.Arith) (left right : Int) (condition : String) :
    WellFormed (evalArith py a left right condition) := by
  unfold evalArith
  dsimp only
  cases a.op with
  | add => exact wellFormed_checked _ _ _
  | sub => exact wellFormed_checked _ _ _
  | mul => exact wellFormed_checked _ _ _
  | div =>
    dsimp only
    split_ifs
    · exact wellFormed_error rfl
    · exact wellFormed_checked _ _ _

/-- An amount that is no malformed one, and in range. -/
theorem wellFormed_amount {x : Except EvalFault Pair} {condition : String} (h : WellFormed x) :
    WellFormed (do
      let (minor, currency) ← x
      let minor ← checked py minor name condition
      return Quantity.money minor currency) := by
  refine wellFormed_bind h fun ⟨minor, currency⟩ => ?_
  exact wellFormed_bind (wellFormed_checked minor name condition) fun _ => nofun

theorem wellFormed_moneyArith (a : Front.Arith) (left right : Quantity) (condition : String) :
    WellFormed (evalMoneyArith py a left right condition) := by
  obtain ⟨lo, op, ro⟩ := a
  unfold evalMoneyArith
  cases left with
  | number n =>
    cases right with
    | number n' => exact wellFormed_error rfl
    | money m code =>
      cases op with
      | mul => exact wellFormed_amount (wellFormed_inCondition fun _ => inDomain_error)
      | _ => exact wellFormed_error rfl
  | money m code =>
    cases right with
    | number n =>
      cases op with
      | mul => exact wellFormed_amount (wellFormed_inCondition fun _ => inDomain_error)
      | _ => exact wellFormed_error rfl
    | money m' code' =>
      cases op with
      | add => exact wellFormed_amount (wellFormed_inCondition fun _ => addMoney_error)
      | sub => exact wellFormed_amount (wellFormed_inCondition fun _ => subMoney_error)
      | mul => exact wellFormed_error rfl
      | div => exact wellFormed_error rfl

/-- A value over absent or readable references is not malformed. -/
theorem wellFormed_value (hpy : DecimalDigits py) {condition : String} {scope : Scope}
    {v : Front.Value}
    (h : ∀ name ∈ v.references, (resolveReference (refOf name) scope).isNull = true ∨
      Readable py ops (resolveReference (refOf name) scope)) :
    WellFormed (evalValue py ops condition scope v) := by
  cases v with
  | operand o =>
    refine wellFormed_operand hpy fun r hr => h r.name ?_
    rw [hr]
    exact List.mem_singleton_self r.name
  | arith a =>
    have hleft : WellFormed (evalOperand py ops condition scope a.left) := by
      refine wellFormed_operand hpy fun r hr => h r.name (List.mem_append_left _ ?_)
      rw [hr]
      exact List.mem_singleton_self r.name
    have hright : WellFormed (evalOperand py ops condition scope a.right) := by
      refine wellFormed_operand hpy fun r hr => h r.name (List.mem_append_right _ ?_)
      rw [hr]
      exact List.mem_singleton_self r.name
    rw [evalValue]
    refine wellFormed_bind hleft fun left => wellFormed_bind hright fun right => ?_
    cases left with
    | none => exact wellFormed_ok
    | some l =>
      cases right with
      | none => cases l <;> exact wellFormed_ok
      | some r =>
        cases l with
        | money m code =>
          exact wellFormed_bind (wellFormed_moneyArith a _ _ condition) fun _ => wellFormed_ok
        | number n =>
          cases r with
          | money m code =>
            exact wellFormed_bind (wellFormed_moneyArith a _ _ condition) fun _ => wellFormed_ok
          | number n' =>
            exact wellFormed_bind (wellFormed_arith a n n' condition) fun _ => wellFormed_ok

/-- A comparison of absent or readable references is not malformed. -/
theorem wellFormed_comparison (hpy : DecimalDigits py) {names : List String} {condition : String}
    {scope : Scope} {t : Front.Comparison}
    (h : ∀ name ∈ t.left.references ++ t.right.references,
      (resolveReference (refOf name) scope).isNull = true ∨
        Readable py ops (resolveReference (refOf name) scope)) :
    WellFormed (comparisonHolds py ops names condition scope t) := by
  have hleft : WellFormed (evalValue py ops condition scope t.left) :=
    wellFormed_value hpy fun name hname => h name (List.mem_append_left _ hname)
  have hright : WellFormed (evalValue py ops condition scope t.right) :=
    wellFormed_value hpy fun name hname => h name (List.mem_append_right _ hname)
  have htext : ∀ v, WellFormed (textOf py condition scope v) := by
    intro v
    cases v with
    | arith a => exact wellFormed_error rfl
    | operand o =>
      cases o with
      | lit l => exact wellFormed_error rfl
      | ref r =>
        rw [textOf]
        cases refOf r.name <;> exact wellFormed_ok
  rw [comparisonHolds]
  split
  · exact wellFormed_bind (htext t.left) fun _ =>
      wellFormed_bind (htext t.right) fun _ => wellFormed_ok
  · refine wellFormed_bind hleft fun left => wellFormed_bind hright fun right => ?_
    cases left with
    | none => exact wellFormed_ok
    | some l =>
      cases right with
      | none => cases l <;> exact wellFormed_ok
      | some r =>
        cases l with
        | number n =>
          cases r with
          | number n' => exact wellFormed_ok
          | money m code => exact wellFormed_error rfl
        | money m code =>
          cases r with
          | number n => exact wellFormed_error rfl
          | money m' code' =>
            have hcompare :
                WellFormed (inCondition py condition (compareMoney (m, code) (m', code'))) :=
              wellFormed_inCondition fun _ => compareMoney_error
            cases t.op with
            | eq => exact wellFormed_ok
            | ne => exact wellFormed_ok
            | _ => exact wellFormed_bind hcompare fun _ => wellFormed_ok

/-- A guard over absent or readable references fails on no malformed value. -/
theorem wellFormed_condition (hpy : DecimalDigits py) {names : List String} {scope : Scope}
    (h : ∀ cond, Front.parseCondition py (some text) = .ok (some cond) →
      ∀ name ∈ comparedNames cond, (resolveReference (refOf name) scope).isNull = true ∨
        Readable py ops (resolveReference (refOf name) scope)) :
    WellFormed (conditionHolds py ops names text scope) := by
  rw [conditionHolds]
  cases hparse : Front.parseCondition py (some text) with
  | error e => cases e <;> exact wellFormed_error rfl
  | ok parsed =>
    cases parsed with
    | none => exact wellFormed_ok
    | some cond =>
      intro fault hfault
      let rules : Rules := ⟨py, ops, fun _ _ => true, fun _ _ => none, id⟩
      obtain ⟨t, ht, hcomparison⟩ := parsedHolds_error (show
        parsedHolds rules.py rules.ops names text scope cond = .error fault from hfault)
      refine wellFormed_comparison hpy (fun name hname => h cond hparse name ?_) fault hcomparison
      exact List.mem_flatMap.mpr ⟨t, ht, hname⟩

/-! ### Validated payloads -/

section

variable {search : String → String → Bool} {doc : Declarations py ops} {payload : Dict}

/-- A validation that returns has found every present value to satisfy its type. -/
theorem satisfied_of_returns (effect : Validation doc)
    (h : validateEffect search doc.nodes doc.refinements effect.effect payload = .ok ()) :
    ∀ field ∈ effect.fields, ∀ value, payload[field.name]? = some value → value.isNull = false →
      Satisfies search doc.refinements field.type value := by
  cases effect with
  | entity id node declared kind =>
    rw [Validation.effect, validateEffect_entity declared kind,
      fields_eq_ok (doc.lowered_of_lookup declared)] at h
    exact h.satisfied
  | field id node declared f named =>
    have hf : f.Lowered := doc.lowered_of_lookup declared f (List.mem_of_find?_eq_some named)
    rw [Validation.effect, validateEffect_field declared hf named, checkGiven_eq_ok hf.type] at h
    intro field hfield
    obtain rfl := List.mem_singleton.mp hfield
    exact h.2

/-- A reference to a validated field is absent or readable. -/
theorem readable_of_readsValidated {effect : Validation doc}
    (h : validateEffect search doc.nodes doc.refinements effect.effect payload = .ok ())
    {scope : Scope} (hscope : scope.payload = payload) {name : String}
    (hname : ReadsValidated doc.refinements effect.fields payload name) :
    (resolveReference (refOf name) scope).isNull = true ∨
      Readable py ops (resolveReference (refOf name) scope) := by
  obtain ⟨field, hfield, href, type, hbase, -, hread⟩ := hname
  have hresolve : resolveReference (refOf name) scope = Dict.get payload field.name := by
    rw [← hscope]
    rcases href with href | href
    · rw [href]
      rfl
    · rw [href]
      simp [resolveReference, payloadNamespace, callerNamespace]
  rw [hresolve]
  rcases hread with rfl | hnull | hreadable
  · cases hgiven : payload[field.name]? with
    | none => exact .inl (get_of_none hgiven)
    | some value =>
      rw [get_of_some hgiven]
      cases hnull : value.isNull with
      | true => exact .inl rfl
      | false =>
        have hsatisfies := satisfied_of_returns effect h field hfield value hgiven hnull
        exact .inr (readable_of_integer (holds_of_satisfies hsatisfies hbase))
  · exact .inl hnull
  · exact .inr hreadable

end

/-- **Validated values**: what is accepted for an Integer, a DateTime or a Money field evaluates up
to the range iff it is readable, and is malformed else; no guard and no assignment over validated
fields fails on a malformed value, where the DateTimes and amounts among them are readable. -/
theorem validated_values (hpy : DecimalDigits py) (laws : TextLaws py ops)
    (search : String → String → Bool) (doc : Declarations py ops) :
    (∀ entry ∈ doc.nodes, ∀ field ∈ entry.2.fields, ∀ type,
      baseOf doc.refinements field.type = some type → type.isComputed = true → ∀ value,
        checkSemanticType search doc.refinements field.type value field.name = .ok () →
          ReadAs py ops type value) ∧
    ∀ (effect : Validation doc) (payload : Dict),
      validateEffect search doc.nodes doc.refinements effect.effect payload = .ok () →
      ∀ scope : Scope, scope.payload = payload →
        (∀ v condition, (∀ name ∈ v.references,
            ReadsValidated doc.refinements effect.fields payload name) →
          WellFormed (evalValue py ops condition scope v)) ∧
        ∀ names text, (∀ cond, Front.parseCondition py (some text) = .ok (some cond) →
            ∀ name ∈ comparedNames cond,
              ReadsValidated doc.refinements effect.fields payload name) →
          WellFormed (conditionHolds py ops names text scope) := by
  constructor
  · intro entry hentry field hfield type hbase _ value hok
    have hlowered := doc.lowered entry hentry field hfield
    have hnull : value.isNull = false := by
      cases hvalue : value.isNull with
      | false => rfl
      | true =>
        rw [checkSemanticType_of_null hlowered.type hvalue] at hok
        exact absurd hok raiseRun_ne_ok
    have hsatisfies := (checkSemanticType_eq_ok hlowered.type hnull).mp hok
    exact readAs_of_holds hpy laws (holds_of_satisfies hsatisfies hbase) hnull
  · intro effect payload hok scope hscope
    constructor
    · intro v condition hnames
      exact wellFormed_value hpy fun name hname =>
        readable_of_readsValidated hok hscope (hnames name hname)
    · intro names text hnames
      exact wellFormed_condition hpy fun cond hparse name hname =>
        readable_of_readsValidated hok hscope (hnames cond hparse name hname)

/-! ### Timestamps -/

/-- Python's operations on plain values; only a text is written as a timestamp is. -/
def JsonOps.written : JsonOps where
  repr := Json.plainStr
  str := fun
    | .str text => text
    | value => if looksLikeInstant .ascii value.plainStr then "" else value.plainStr
  eq := Json.plainEq

theorem textLaws_written : TextLaws .ascii JsonOps.written where
  text _ := rfl
  other value h := by
    have hempty : isDateTime .ascii "" = false := by rfl
    have hother : ∀ text, isDateTime .ascii (if looksLikeInstant .ascii text then "" else text) =
        false := by
      intro text
      split_ifs with hlooks
      · exact hempty
      · rw [looksLikeInstant] at hlooks
        rw [isDateTime, Bool.of_not_eq_true hlooks, Bool.false_and]
    cases value with
    | str text => exact ⟨text, rfl⟩
    | _ => exact absurd h (by rw [JsonOps.written, hother]; exact Bool.false_ne_true)

/-- An entity with an instant. -/
def dated : Declarations .ascii JsonOps.written where
  nodes :=
    [("entity.visit", { kind := "Entity", fields := [{ name := "at", type := "DateTime" }] })]
  refinements := []
  lowered := by
    intro entry hentry f hf
    obtain rfl := List.mem_singleton.mp hentry
    obtain rfl := List.mem_singleton.mp hf
    exact ⟨by decide, by decide, nofun⟩

theorem validated_values_dated :
    ReadAs .ascii JsonOps.written .dateTime (.str "2026-07-31T09:00:00Z") :=
  (validated_values decimalDigits_ascii textLaws_written (fun _ _ => true) dated).1 _ (.head _) _
    (.head _) .dateTime rfl rfl _ rfl

/-- A payload with an instant that has no zone. -/
def zonelessScope : Scope where
  payload := (∅ : Dict).insert "at" (.str "2026-07-31T09:00:00")
  bindings := ∅
  caller := none

/-- A timestamp without a zone is accepted, and `input.at` does not evaluate. -/
theorem zoneless_accepted :
    checkSemanticType (fun _ _ => true) dated.refinements "DateTime" (.str "2026-07-31T09:00:00")
      "at" = .ok () ∧
    ¬ Evaluates (evalValue .ascii JsonOps.written "input.at > 0" zonelessScope
      (.operand (.ref ⟨"input.at"⟩))) := by
  refine ⟨rfl, fun h => ?_⟩
  have hvalue : resolveReference (refOf "input.at") zonelessScope = .str "2026-07-31T09:00:00" := by
    have href : refOf "input.at" = .qualified "input" "at" := by decide
    have hcaller : "input" ≠ callerNamespace := by decide
    have hinput : "input" = payloadNamespace := rfl
    rw [href, resolveReference, if_neg hcaller, if_pos hinput]
    exact get_of_some Std.ExtTreeMap.getElem?_insert_self
  have hcode : ∃ message, encodeInstant .ascii "2026-07-31T09:00:00" "input.at" = .error message :=
    ⟨_, rfl⟩
  obtain ⟨message, hmessage⟩ := hcode
  rw [evalValue_ref hvalue rfl, evaluates_some] at h
  rcases evalRaw_cases decimalDigits_ascii "input.at" "input.at > 0" (.str "2026-07-31T09:00:00")
    with ⟨hread, -⟩ | ⟨-, fault, hfault, hcause⟩
  · have hlooks : looksLikeInstant .ascii "2026-07-31T09:00:00" = true := by rfl
    rw [Readable, if_pos hlooks] at hread
    obtain ⟨ms, hms⟩ := (isZoned_iff decimalDigits_ascii _ "input.at").mp hread
    exact absurd (hmessage.symm.trans hms) nofun
  · rw [h fault hfault] at hcause
    exact absurd hcause Bool.false_ne_true

/-! ### Numeric predicates -/

section

variable {names : List String} {condition : String} {scope : Scope}

/-- Whether `encode_instant` accepts a text does not depend on where the text stands. -/
theorem encodeInstant_isOk (text place place' : String) :
    (encodeInstant py text place).isOk = (encodeInstant py text place').isOk := by
  unfold encodeInstant
  cases instantOf py text with
  | none =>
    dsimp only
    split_ifs
    · rfl
    · rfl
  | some t =>
    dsimp only
    cases timegm t.stamp.year t.stamp.month t.stamp.day with
    | none => rfl
    | some seconds =>
      dsimp only
      split_ifs
      · rfl
      · rfl
      · rfl

theorem readsNumber_checked {n : Int} {name : String} :
    ReadsNumber (some <$> (Quantity.number <$> checked py n name condition)) := by
  cases h : checked py n name condition with
  | ok m => exact .inl ⟨m, rfl⟩
  | error e => exact .inr ⟨e, rfl, checked_error h⟩

variable {fault : EvalFault} {t : Front.Comparison}

/-- An error other than that of the range. -/
theorem not_readsNumber_error (h : fault.cause ≠ .range) : ¬ ReadsNumber (.error fault) := by
  rintro (⟨n, hn⟩ | ⟨fault', hfault, hrange⟩)
  · cases hn
  · rw [← Except.error.inj hfault] at hrange
    exact h hrange

theorem not_readsNumber_money {minor : Int} {currency : String} :
    ¬ ReadsNumber (.ok (some (.money minor currency))) := by
  rintro (⟨n, hn⟩ | ⟨fault, hfault, -⟩)
  · cases hn
  · cases hfault

/-- The two dispatches agree on every value but `null`. -/
theorem isNumericShaped_iff (name : String) {raw : Json} (hnull : raw.isNull = false) :
    isNumericShaped py raw = true ↔ ReadsNumber (some <$> evalRaw py ops name condition raw) := by
  have hnonNumeric : ¬ ReadsNumber (.error ⟨.nonNumeric, "Cannot compare non-numeric " ++ name ++
      "=" ++ ops.repr raw ++ " in condition " ++ py.repr condition⟩) :=
    not_readsNumber_error nofun
  cases raw with
  | null => cases hnull
  | float text => exact iff_of_false Bool.false_ne_true hnonNumeric
  | arr items => exact iff_of_false Bool.false_ne_true hnonNumeric
  | bool b => exact iff_of_true rfl (.inl ⟨_, rfl⟩)
  | int n => exact iff_of_true rfl readsNumber_checked
  | str text =>
    unfold isNumericShaped evalRaw
    dsimp only
    cases isInstantText py text || looksLikeInstant py text with
    | true =>
      rw [if_pos rfl, if_pos rfl]
      have hplace := @encodeInstant_isOk py text "value" name
      cases hvalue : encodeInstant py text "value" with
      | ok ms =>
        cases hname : encodeInstant py text name with
        | ok ms' => exact iff_of_true rfl readsNumber_checked
        | error e =>
          rw [hvalue, hname] at hplace
          cases hplace
      | error e =>
        cases hname : encodeInstant py text name with
        | ok ms =>
          rw [hvalue, hname] at hplace
          cases hplace
        | error e' =>
          refine iff_of_false Bool.false_ne_true ?_
          exact not_readsNumber_error nofun
    | false =>
      rw [if_neg Bool.false_ne_true, if_neg Bool.false_ne_true]
      cases intText py text with
      | some n => exact iff_of_true rfl readsNumber_checked
      | none => exact iff_of_false Bool.false_ne_true hnonNumeric
  | obj fields =>
    refine iff_of_false Bool.false_ne_true ?_
    unfold evalRaw
    dsimp only
    cases fields.lookup "amount" with
    | none => exact hnonNumeric
    | some amount =>
      cases fields.lookup "currency" with
      | none => exact hnonNumeric
      | some currency =>
        dsimp only
        rcases encodeMoney_cases amount currency with
          ⟨minor, code, hok, -⟩ | ⟨e, herror, ⟨message, rfl⟩ | ⟨message, rfl⟩, -⟩
        · rw [hok]
          exact not_readsNumber_money
        · rw [herror]
          exact not_readsNumber_error nofun
        · rw [herror]
          exact not_readsNumber_error nofun

/-- **`is-numeric` predicts `eval_value`.** -/
theorem isNumeric_iff_readsNumber (r : Front.Ref) :
    numericPredicateHolds py scope ⟨r.name, .isNumeric⟩ = true ↔
      ReadsNumber (evalValue py ops condition scope (.operand (.ref r))) := by
  unfold numericPredicateHolds
  dsimp only
  cases hnull : (resolveReference (refOf r.name) scope).isNull with
  | false =>
    rw [evalValue_ref rfl hnull]
    exact isNumericShaped_iff r.name hnull
  | true =>
    have hvalue : resolveReference (refOf r.name) scope = .null := by
      cases hraw : resolveReference (refOf r.name) scope with
      | null => rfl
      | _ =>
        rw [hraw] at hnull
        cases hnull
    rw [evalValue, evalOperand, hvalue]
    refine iff_of_false Bool.false_ne_true ?_
    rintro (⟨n, hn⟩ | ⟨fault, hfault, -⟩)
    · cases hn
    · cases hfault

theorem isNotNumeric_eq (name : String) :
    numericPredicateHolds py scope ⟨name, .isNotNumeric⟩ =
      !numericPredicateHolds py scope ⟨name, .isNumeric⟩ := rfl

/-! ### Comparisons of numbers -/

/-- A number, or an error that is not an operand's. -/
def NumberOrRange (result : Except EvalFault (Option Quantity)) : Prop :=
  (∃ n, result = .ok (some (.number n))) ∨
    ∃ fault, result = .error fault ∧ fault.cause.isOperand = false

theorem numberOrRange_of_readsNumber {result : Except EvalFault (Option Quantity)}
    (h : ReadsNumber result) : NumberOrRange result := by
  rcases h with hnumber | ⟨fault, hfault, hrange⟩
  · exact .inl hnumber
  · exact .inr ⟨fault, hfault, by rw [hrange]; rfl⟩

theorem numberOrRange_evalArith {a : Front.Arith} {l r : Int} :
    NumberOrRange (do return some (.number (← evalArith py a l r condition))) := by
  have hchecked (n : Int) :
      NumberOrRange (do
        return some (.number (← checked py n (Front.Value.arith a).toText condition))) := by
    cases h : checked py n (Front.Value.arith a).toText condition with
    | ok m => exact .inl ⟨m, rfl⟩
    | error e => exact .inr ⟨e, rfl, by rw [checked_error h]; rfl⟩
  unfold evalArith
  dsimp only
  cases a.op with
  | add => exact hchecked _
  | sub => exact hchecked _
  | mul => exact hchecked _
  | div =>
    dsimp only
    by_cases hzero : r = 0
    · rw [if_pos hzero]
      exact .inr ⟨_, rfl, rfl⟩
    · rw [if_neg hzero]
      exact hchecked _

theorem numberOrRange_evalOperand {o : Front.Operand} (h : ∀ name ∈ o.references,
    numericPredicateHolds py scope ⟨name, .isNumeric⟩ = true) :
    NumberOrRange (evalOperand py ops condition scope o) := by
  cases o with
  | lit l => exact .inl ⟨l.value, rfl⟩
  | ref r =>
    exact numberOrRange_of_readsNumber
      ((isNumeric_iff_readsNumber r).mp (h r.name List.mem_cons_self))

/-- A value whose references are numeric. -/
theorem numberOrRange_evalValue {v : Front.Value} (h : ∀ name ∈ v.references,
    numericPredicateHolds py scope ⟨name, .isNumeric⟩ = true) :
    NumberOrRange (evalValue py ops condition scope v) := by
  cases v with
  | operand o => exact numberOrRange_evalOperand h
  | arith a =>
    unfold evalValue
    dsimp only
    rcases @numberOrRange_evalOperand py ops condition scope a.left
      (fun name hname => h name (List.mem_append_left _ hname)) with ⟨l, hl⟩ | ⟨fault, hl, hcause⟩
    · rw [hl]
      rcases @numberOrRange_evalOperand py ops condition scope a.right
        (fun name hname => h name (List.mem_append_right _ hname)) with
        ⟨r, hr⟩ | ⟨fault, hr, hcause⟩
      · rw [hr]
        exact numberOrRange_evalArith
      · rw [hr]
        exact .inr ⟨fault, rfl, hcause⟩
    · rw [hl]
      exact .inr ⟨fault, rfl, hcause⟩

/-- A comparison of numbers fails on no operand. -/
theorem comparisonHolds_numeric (htext : isTextTerm names t = false)
    (h : ∀ name ∈ t.left.references ++ t.right.references,
      numericPredicateHolds py scope ⟨name, .isNumeric⟩ = true)
    (hfault : comparisonHolds py ops names condition scope t = .error fault) :
    fault.cause.isOperand = false := by
  unfold comparisonHolds at hfault
  rw [htext, if_neg Bool.false_ne_true] at hfault
  rcases @numberOrRange_evalValue py ops condition scope t.left
    (fun name hname => h name (List.mem_append_left _ hname)) with ⟨l, hl⟩ | ⟨e, hl, hcause⟩
  · rw [hl] at hfault
    rcases @numberOrRange_evalValue py ops condition scope t.right
      (fun name hname => h name (List.mem_append_right _ hname)) with ⟨r, hr⟩ | ⟨e, hr, hcause⟩
    · rw [hr] at hfault
      cases hfault
    · rw [hr] at hfault
      rw [← Except.error.inj hfault]
      exact hcause
  · rw [hl] at hfault
    rw [← Except.error.inj hfault]
    exact hcause

/-- A comparison with a number that holds has read a number. -/
theorem isNumeric_of_comparesNumber {r : Front.Ref} (hcompares : ComparesNumber r t)
    (htext : isTextTerm names t = false)
    (h : comparisonHolds py ops names condition scope t = .ok true) :
    numericPredicateHolds py scope ⟨r.name, .isNumeric⟩ = true := by
  apply (isNumeric_iff_readsNumber r).mpr
  unfold comparisonHolds at h
  rw [htext, if_neg Bool.false_ne_true] at h
  obtain ⟨left, hleft, h⟩ := Lib.bind_eq_ok.mp h
  obtain ⟨right, hright, h⟩ := Lib.bind_eq_ok.mp h
  obtain ⟨l, ⟨hl, hr⟩ | ⟨hl, hr⟩⟩ := hcompares
  · rw [hr] at hright
    rw [← Except.ok.inj hright] at h
    rw [hl] at hleft
    cases left with
    | none => cases h
    | some q =>
      cases q with
      | number n => exact .inl ⟨n, hleft⟩
      | money minor currency => cases h
  · rw [hl] at hleft
    rw [← Except.ok.inj hleft] at h
    rw [hr] at hright
    cases right with
    | none => cases h
    | some q =>
      cases q with
      | number n => exact .inl ⟨n, hright⟩
      | money minor currency => cases h

/-- **Numeric predicates**: `is-numeric` predicts what `eval_value` reads, and the comparisons of
numeric references fail on no operand. -/
theorem predictsEvaluation (py : Python) (ops : JsonOps) (names : List String) (condition : String)
    (scope : Scope) : PredictsEvaluation py ops names condition scope where
  predicts r := isNumeric_iff_readsNumber r
  guards name := ⟨numericPredicateHolds py scope ⟨name, .isNumeric⟩, rfl, rfl⟩
  raises t htext fault hfault hcause := by
    by_contra hnone
    have hnumeric : ∀ name ∈ t.left.references ++ t.right.references,
        numericPredicateHolds py scope ⟨name, .isNumeric⟩ = true := by
      intro name hname
      by_contra hnot
      apply hnone
      refine ⟨name, hname, ?_⟩
      rw [isNotNumeric_eq, Bool.of_not_eq_true hnot]
      rfl
    rw [comparisonHolds_numeric htext hnumeric hfault] at hcause
    cases hcause
  apart r t hcompares htext hnot hholds := by
    rw [isNotNumeric_eq, isNumeric_of_comparesNumber hcompares htext hholds] at hnot
    cases hnot

/-- A payload whose `rate` is no number. -/
def wordScope : Scope where
  payload := (∅ : Dict).insert "rate" (.str "abc")
  bindings := ∅
  caller := none

/-- A comparison of the word fails, whatever the fallback says. -/
theorem not_decidedTogether_word :
    ¬ DecidedTogether .ascii JsonOps.plain [] "rate > 5" wordScope ⟨"rate"⟩
      ⟨.operand (.ref ⟨"rate"⟩), .gt, .operand (.lit ⟨5, false⟩)⟩ := by
  rintro ⟨hfault, -⟩
  have hvalue : resolveReference (refOf "rate") wordScope = .str "abc" := by
    have href : refOf "rate" = .bare "rate" := by decide
    rw [href]
    exact get_of_some Std.ExtTreeMap.getElem?_insert_self
  have heval : ∃ message, evalRaw .ascii JsonOps.plain "rate" "rate > 5" (.str "abc") =
      .error ⟨.nonNumeric, message⟩ := ⟨_, rfl⟩
  obtain ⟨message, hmessage⟩ := heval
  have hleft : evalValue .ascii JsonOps.plain "rate > 5" wordScope (.operand (.ref ⟨"rate"⟩)) =
      .error ⟨.nonNumeric, message⟩ := by
    rw [evalValue_ref hvalue rfl, hmessage]
    rfl
  have hholds : comparisonHolds .ascii JsonOps.plain [] "rate > 5" wordScope
      ⟨.operand (.ref ⟨"rate"⟩), .gt, .operand (.lit ⟨5, false⟩)⟩ =
        .error ⟨.nonNumeric, message⟩ := by
    unfold comparisonHolds
    rw [hleft]
    rfl
  exact absurd (hfault _ hholds) (Bool.noConfusion)

end

end Lnpl.Interp
