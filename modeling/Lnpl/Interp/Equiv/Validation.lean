import Lnpl.Interp.Plain
import Lnpl.Interp.Validation
import Lnpl.Lib.Assignments

/-!
# Validation, checked

An effect of a lowered document raises nothing but a `RunError`, and returns on the valid payloads
(`Judges`), iff no value that `Decimal` reads as a NaN reaches the comparison with a limit, and a
derived field is not validated alone, or only with a value that its type refuses
(`validate_effect_iff`).  Each check is met with two facts: when it returns, and when it is clean.
-/

namespace Lnpl.Interp

open Front (Python)

/-! ### Clean checks -/

theorem clean_ok {a : Unit} : Clean (.ok a) := nofun

theorem clean_raiseRun (message : String) : Clean (raiseRun message) := by
  intro e h
  obtain rfl := Except.error.inj h
  rfl

variable {message : String} {second : Except Exc Unit} {α : Type}

theorem raiseRun_ne_ok : raiseRun message ≠ .ok () := nofun

theorem clean_raiseIf (condition : Bool) (message : String) :
    Clean (raiseIf condition message) := by
  cases condition with
  | false => exact clean_ok
  | true => exact clean_raiseRun message

theorem raiseIf_eq_ok {condition : Bool} :
    raiseIf condition message = .ok () ↔ condition = false := by
  cases condition with
  | false => exact ⟨fun _ => rfl, fun _ => rfl⟩
  | true => exact ⟨nofun, nofun⟩

variable {first : Except Exc Unit}

/-- Two checks are clean iff the first is, and the second is where the first returns. -/
theorem clean_bind {second : Unit → Except Exc Unit} :
    Clean (first >>= second) ↔ Clean first ∧ (first = .ok () → Clean (second ())) := by
  cases first with
  | ok a => exact ⟨fun h => ⟨clean_ok, fun _ => h⟩, fun h => h.2 rfl⟩
  | error e => exact ⟨fun h => ⟨h, nofun⟩, fun h => h.1⟩

theorem clean_seq (hfirst : Clean first) (hsecond : Clean second) :
    Clean (first >>= fun _ => second) := clean_bind.mpr ⟨hfirst, fun _ => hsecond⟩

theorem seq_eq_ok : (first >>= fun _ => second) = .ok () ↔ first = .ok () ∧ second = .ok () := by
  rw [Lib.bind_eq_ok]
  exact ⟨fun ⟨_, hfirst, hsecond⟩ => ⟨hfirst, hsecond⟩, fun ⟨hfirst, hsecond⟩ =>
    ⟨(), hfirst, hsecond⟩⟩

theorem ifGiven_eq_ok {facet : Option α} {check : α → Except Exc Unit} :
    ifGiven facet check = .ok () ↔ ∀ a, facet = some a → check a = .ok () := by
  cases facet with
  | none => exact ⟨fun _ _ h => (nomatch h), fun _ => rfl⟩
  | some a =>
    constructor
    · intro h b hb
      obtain rfl := Option.some.inj hb
      exact h
    · exact fun h => h a rfl

theorem clean_ifGiven {facet : Option α} {check : α → Except Exc Unit} (h : ∀ a, Clean (check a)) :
    Clean (ifGiven facet check) := by
  cases facet with
  | none => exact clean_ok
  | some a => exact h a

/-! ### The rules -/

section

variable (py : Python) (ops : JsonOps)

theorem ofName_name (type : SemanticType) : SemanticType.ofName type.name = some type := by
  cases type <;> decide

theorem ne_semanticTypes (type : SemanticType) : type.name ≠ "semantic-types" := by
  cases type <;> decide

/-- The rule of a base returns on the values that satisfy it. -/
theorem checkBase_eq_ok {typeName fieldName : String} {value : Json}
    (hname : typeName ≠ "semantic-types") (hvalue : value.isNull = false) :
    checkBase py ops typeName value fieldName = .ok () ↔
      ∀ type, SemanticType.ofName typeName = some type → type.Holds py ops value := by
  rw [checkBase, if_neg hname, hvalue, if_neg Bool.false_ne_true]
  cases hof : SemanticType.ofName typeName with
  | none => exact ⟨fun _ _ h => (nomatch h), fun _ => rfl⟩
  | some type =>
    have hiff : (∀ type', some type = some type' → type'.Holds py ops value) ↔
        type.Holds py ops value := by
      constructor
      · exact fun h => h type rfl
      · rintro h type' htype
        obtain rfl := Option.some.inj htype
        exact h
    rw [hiff, SemanticType.Holds]
    cases hcheck : type.check with
    | none => simp [hcheck]
    | some rule =>
      cases rule with
      | pattern holds => simp [hcheck, raiseIf_eq_ok]
      | py t => simp [hcheck, raiseIf_eq_ok]
      | nonempty => simp [hcheck, raiseIf_eq_ok]

theorem clean_checkBase (typeName fieldName : String) (value : Json) :
    Clean (checkBase py ops typeName value fieldName) := by
  rw [checkBase]
  split
  · exact clean_ok
  split
  · exact clean_raiseRun _
  cases (SemanticType.ofName typeName).bind SemanticType.check with
  | none => exact clean_ok
  | some rule =>
    cases rule with
    | pattern holds => exact clean_raiseIf _ _
    | py t => exact clean_raiseIf _ _
    | nonempty => exact clean_raiseIf _ _

end

/-! ### The facets -/

section

variable {py : Python} {ops : JsonOps} {search : String → String → Bool}
variable {facets : Facets py ops} {value : Json} {fieldName typeName : String}

theorem checkEnum_eq_ok :
    checkEnum facets value fieldName typeName = .ok () ↔ facets.Admit value := by
  simp [checkEnum, Facets.Admit, ifGiven_eq_ok, raiseIf_eq_ok]

theorem clean_checkEnum : Clean (checkEnum facets value fieldName typeName) :=
  clean_ifGiven fun _ => clean_raiseIf _ _

theorem checkText_eq_ok :
    checkText search facets value fieldName typeName = .ok () ↔
      (∀ n, facets.minLength = some n → n ≤ (ops.str value).length) ∧
      (∀ n, facets.maxLength = some n → (ops.str value).length ≤ n) ∧
      ∀ pattern, facets.pattern = some pattern → search pattern (ops.str value) = true := by
  simp only [checkText, seq_eq_ok, ifGiven_eq_ok, raiseIf_eq_ok, decide_eq_false_iff_not, not_lt,
    Bool.not_eq_false']

theorem clean_checkText : Clean (checkText search facets value fieldName typeName) :=
  clean_seq (clean_ifGiven fun _ => clean_raiseIf _ _)
    (clean_seq (clean_ifGiven fun _ => clean_raiseIf _ _)
      (clean_ifGiven fun _ => clean_raiseIf _ _))

section limits

variable {beyond : Numeral → Numeral → Option Bool} {facet : String}
variable {limit : Option (Limit py ops)}
variable {violates : WithBot (WithTop ℚ) → WithBot (WithTop ℚ) → Bool}

/-- A limit returns on the numbers that do not violate it. -/
theorem checkLimit_eq_ok
    (hnumber : ∀ x b, beyond (.number x) (.number b) = some (violates x b))
    (hnan : ∀ b, beyond .nan b = none) :
    checkLimit beyond facet limit value fieldName typeName = .ok () ↔
      ∀ l, limit = some l →
        ∃ x, numeralOf py (ops.str value) = some (.number x) ∧ violates x l.bound = false := by
  rw [checkLimit, ifGiven_eq_ok]
  refine forall₂_congr fun l _ => ?_
  simp only [l.reads]
  cases numeralOf py (ops.str value) with
  | none => exact ⟨fun h => absurd h raiseRun_ne_ok, fun ⟨_, h, _⟩ => nomatch h⟩
  | some numeral =>
    cases numeral with
    | nan => simp [hnan]
    | number x => simp [hnumber, raiseIf_eq_ok]

/-- It is clean unless it is given what is not a number. -/
theorem clean_checkLimit_iff
    (hnumber : ∀ x b, beyond (.number x) (.number b) = some (violates x b))
    (hnan : ∀ b, beyond .nan b = none) :
    Clean (checkLimit beyond facet limit value fieldName typeName) ↔
      ¬ (limit.isSome = true ∧ numeralOf py (ops.str value) = some .nan) := by
  cases limit with
  | none => exact ⟨fun _ h => Bool.false_ne_true h.1, fun _ => clean_ok⟩
  | some l =>
    simp only [checkLimit, ifGiven, l.reads]
    cases numeralOf py (ops.str value) with
    | none => exact ⟨fun _ h => (nomatch h.2), fun _ => clean_raiseRun _⟩
    | some numeral =>
      cases numeral with
      | nan =>
        constructor
        · intro h
          have := h (.other "InvalidOperation") (by simp [hnan])
          exact absurd this Bool.false_ne_true
        · exact fun h => absurd ⟨rfl, rfl⟩ h
      | number x =>
        simp only [hnumber]
        exact ⟨fun _ h => (nomatch h.2), fun _ => clean_raiseIf _ _⟩

end limits

theorem min_number (x b : WithBot (WithTop ℚ)) :
    Numeral.lt? (.number x) (.number b) = some (decide (x < b)) := rfl

theorem max_number (x b : WithBot (WithTop ℚ)) :
    Numeral.gt? (.number x) (.number b) = some (decide (b < x)) := rfl

theorem min_nan (b : Numeral) : Numeral.lt? .nan b = none := rfl

theorem max_nan (b : Numeral) : Numeral.gt? .nan b = none := by
  cases b <;> rfl

variable {refinement : Refinement py ops}

/-- The facets return on the values that satisfy all of them. -/
theorem checkFacets_eq_ok :
    checkFacets search refinement value fieldName typeName = .ok () ↔
      refinement.facets.Hold search value := by
  have htextual := refinement.textual
  have hnumeric := refinement.numeric
  rw [checkFacets, seq_eq_ok, checkEnum_eq_ok]
  cases hcategory : refinement.base.category with
  | text =>
    obtain ⟨hmin, hmax⟩ := hnumeric (by simp [hcategory])
    simp only [checkText_eq_ok]
    constructor
    · rintro ⟨henum, hminLength, hmaxLength, hpattern⟩
      exact ⟨henum, hminLength, hmaxLength, hpattern, by simp [hmin], by simp [hmax]⟩
    · exact fun h => ⟨h.enum, h.minLength, h.maxLength, h.pattern⟩
  | numeric =>
    obtain ⟨hminLength, hmaxLength, hpattern⟩ := htextual (by simp [hcategory])
    simp only [seq_eq_ok, checkLimit_eq_ok min_number min_nan, checkLimit_eq_ok max_number max_nan,
      decide_eq_false_iff_not, not_lt]
    constructor
    · rintro ⟨henum, hmin, hmax⟩
      exact ⟨henum, by simp [hminLength], by simp [hmaxLength], by simp [hpattern], hmin, hmax⟩
    · exact fun h => ⟨h.enum, h.min, h.max⟩
  | boolean | composite =>
    obtain ⟨hminLength, hmaxLength, hpattern⟩ := htextual (by simp [hcategory])
    obtain ⟨hmin, hmax⟩ := hnumeric (by simp [hcategory])
    constructor
    · rintro ⟨henum, -⟩
      exact ⟨henum, by simp [hminLength], by simp [hmaxLength], by simp [hpattern], by simp [hmin],
        by simp [hmax]⟩
    · exact fun h => ⟨h.enum, rfl⟩

/-- They are clean unless one of their members, that is no number, is compared with a limit. -/
theorem clean_checkFacets_iff :
    Clean (checkFacets search refinement value fieldName typeName) ↔
      ¬ ((refinement.facets.min.isSome = true ∨ refinement.facets.max.isSome = true) ∧
        refinement.facets.Admit value ∧ numeralOf py (ops.str value) = some .nan) := by
  have hnumeric := refinement.numeric
  rw [checkFacets, clean_bind, checkEnum_eq_ok]
  have hnone : refinement.base.category ≠ .numeric →
      ¬ (refinement.facets.min.isSome = true ∨ refinement.facets.max.isSome = true) := by
    intro h
    obtain ⟨hmin, hmax⟩ := hnumeric h
    simp [hmin, hmax]
  cases hcategory : refinement.base.category with
  | text =>
    have := hnone (by simp [hcategory])
    exact ⟨fun _ h => this h.1, fun _ => ⟨clean_checkEnum, fun _ => clean_checkText⟩⟩
  | numeric =>
    simp only [clean_bind, clean_checkLimit_iff min_number min_nan,
      clean_checkLimit_iff max_number max_nan]
    constructor
    · rintro ⟨-, h⟩ ⟨hlimit, hadmit, hnan⟩
      obtain ⟨hmin, hmax⟩ := h hadmit
      have habsent : refinement.facets.min = none := by
        cases hfacet : refinement.facets.min with
        | none => rfl
        | some l => exact absurd ⟨by simp [hfacet], hnan⟩ hmin
      have hpast : checkLimit Numeral.lt? "min" refinement.facets.min value fieldName typeName =
          .ok () := by
        rw [habsent]
        rfl
      rcases hlimit with hlimit | hlimit
      · exact hmin ⟨hlimit, hnan⟩
      · exact hmax hpast ⟨hlimit, hnan⟩
    · intro h
      exact ⟨clean_checkEnum, fun hadmit => ⟨fun ⟨hlimit, hnan⟩ => h ⟨.inl hlimit, hadmit, hnan⟩,
        fun _ ⟨hlimit, hnan⟩ => h ⟨.inr hlimit, hadmit, hnan⟩⟩⟩
  | boolean | composite =>
    have := hnone (by simp [hcategory])
    exact ⟨fun _ h => this h.1, fun _ => ⟨clean_checkEnum, fun _ => clean_ok⟩⟩

/-! ### Declared types -/

variable {refinements : Refinements py ops} {payload : Dict}

section

variable (hname : typeName ≠ "semantic-types")
include hname

theorem checkSemanticType_of_null (hvalue : value.isNull = true) :
    checkSemanticType search refinements typeName value fieldName =
      raiseRun ("field " ++ py.repr fieldName ++ " is null") := by
  rw [checkSemanticType, if_neg hname, if_pos hvalue]

/-- A declared type returns on the values that satisfy its base and its facets. -/
theorem checkSemanticType_eq_ok (hvalue : value.isNull = false) :
    checkSemanticType search refinements typeName value fieldName = .ok () ↔
      Satisfies search refinements typeName value := by
  rw [checkSemanticType, if_neg hname, hvalue, if_neg Bool.false_ne_true, Satisfies]
  cases refinements.lookup typeName with
  | none => exact checkBase_eq_ok py ops hname hvalue
  | some refinement =>
    simp only [seq_eq_ok, checkFacets_eq_ok,
      checkBase_eq_ok py ops (ne_semanticTypes refinement.base) hvalue, ofName_name]
    simp

theorem clean_checkSemanticType_iff :
    Clean (checkSemanticType search refinements typeName value fieldName) ↔
      ¬ Unordered refinements typeName value := by
  cases hvalue : value.isNull with
  | true =>
    rw [checkSemanticType_of_null hname hvalue]
    refine ⟨?_, fun _ => clean_raiseRun _⟩
    rintro - ⟨_, _, _, hnull, _⟩
    exact absurd (hvalue.symm.trans hnull) Bool.true_eq_false.mp
  | false =>
    rw [checkSemanticType, if_neg hname, hvalue, if_neg Bool.false_ne_true, Unordered]
    cases hlookup : refinements.lookup typeName with
    | none =>
      refine ⟨?_, fun _ => clean_checkBase py ops typeName fieldName value⟩
      rintro - ⟨_, h, _⟩
      exact nomatch h
    | some refinement =>
      have hbase := @checkBase_eq_ok py ops refinement.base.name fieldName value
        (ne_semanticTypes refinement.base) hvalue
      simp only [ofName_name, Option.some.injEq, forall_eq'] at hbase
      simp only [clean_bind, hbase, clean_checkFacets_iff]
      constructor
      · rintro ⟨-, h⟩ ⟨r, hr, hlimit, -, hholds, hadmit, hnan⟩
        obtain rfl := Option.some.inj hr
        exact h hholds ⟨hlimit, hadmit, hnan⟩
      · intro h
        refine ⟨clean_checkBase py ops _ fieldName value, ?_⟩
        rintro hholds ⟨hlimit, hadmit, hnan⟩
        exact h ⟨refinement, rfl, hlimit, hvalue, hholds, hadmit, hnan⟩

end

/-! ### Fields -/

variable {isOptional : Bool}

theorem get_of_none {payload : Dict} {fieldName : String} (h : payload[fieldName]? = none) :
    (Dict.get payload fieldName).isNull = true := by
  rw [Dict.get, h]
  rfl

theorem get_of_some {payload : Dict} {fieldName : String} {value : Json}
    (h : payload[fieldName]? = some value) : Dict.get payload fieldName = value := by
  rw [Dict.get, h]
  rfl

/-- A field that is no derived one returns where it is present if required, and what is present
satisfies its type. -/
theorem checkGiven_eq_ok (hname : typeName ≠ "semantic-types") :
    checkGiven search refinements payload isOptional typeName fieldName = .ok () ↔
      (isOptional = false → (Dict.get payload fieldName).isNull = false) ∧
      ∀ value, payload[fieldName]? = some value → value.isNull = false →
        Satisfies search refinements typeName value := by
  rw [checkGiven]
  cases hgiven : payload[fieldName]? with
  | none =>
    have hnull := get_of_none hgiven
    cases isOptional with
    | false => simp [hnull, raiseRun]
    | true => simp [hnull]
  | some value =>
    rw [get_of_some hgiven]
    cases hvalue : value.isNull with
    | true =>
      cases isOptional with
      | false => simp [checkSemanticType_of_null hname hvalue, raiseRun]
      | true => simp [hvalue]
    | false => simp [checkSemanticType_eq_ok hname hvalue, hvalue]

theorem clean_checkGiven_iff (hname : typeName ≠ "semantic-types") :
    Clean (checkGiven search refinements payload isOptional typeName fieldName) ↔
      ∀ value, payload[fieldName]? = some value → ¬ Unordered refinements typeName value := by
  rw [checkGiven]
  cases hgiven : payload[fieldName]? with
  | none =>
    refine ⟨fun _ _ h => (nomatch h), fun _ => ?_⟩
    split
    · exact clean_ok
    · exact clean_raiseRun _
  | some value =>
    rw [get_of_some hgiven]
    simp only [Option.some.injEq, forall_eq']
    split
    case isTrue h =>
      refine ⟨?_, fun _ => clean_ok⟩
      rintro - ⟨_, _, _, hnull, _⟩
      simp [hnull] at h
    case isFalse => exact clean_checkSemanticType_iff hname

variable {field : Field}

/-- What a valid payload has of one field. -/
theorem valid_singleton :
    Valid search refinements [field] payload ↔
      (field.derived = true → payload[field.name]? = none) ∧
      (field.derived = false → field.optional = false →
        (Dict.get payload field.name).isNull = false) ∧
      ∀ value, payload[field.name]? = some value → value.isNull = false →
        Satisfies search refinements field.type value := by
  constructor
  · have hmem : field ∈ [field] := List.mem_singleton_self field
    exact fun h => ⟨h.derived field hmem, h.required field hmem, h.satisfied field hmem⟩
  · rintro ⟨hderived, hrequired, hsatisfied⟩
    constructor
    all_goals
      intro f hf
      obtain rfl := List.mem_singleton.mp hf
      assumption

variable {fields : List Field} {id : String} {node : DeclNode}

theorem valid_iff_forall :
    Valid search refinements fields payload ↔
      ∀ f ∈ fields, Valid search refinements [f] payload := by
  simp only [valid_singleton]
  constructor
  · exact fun h f hf => ⟨h.derived f hf, h.required f hf, h.satisfied f hf⟩
  · exact fun h => ⟨fun f hf => (h f hf).1, fun f hf => (h f hf).2.1, fun f hf => (h f hf).2.2⟩

theorem checkField_eq_ok (hfield : field.Lowered) :
    checkField search refinements payload field = .ok () ↔
      Valid search refinements [field] payload := by
  rw [checkField, valid_singleton]
  cases hderived : field.derived with
  | false => simp [checkGiven_eq_ok hfield.type]
  | true =>
    simp only [if_true, raiseIf_eq_ok, Option.isSome_eq_false_iff, Option.isNone_iff_eq_none]
    constructor
    · exact fun h => ⟨fun _ => h, nofun, by simp [h]⟩
    · exact fun h => h.1 trivial

theorem clean_checkField_iff (hfield : field.Lowered) :
    Clean (checkField search refinements payload field) ↔
      ¬ (field.derived = false ∧ ∃ value, payload[field.name]? = some value ∧
        Unordered refinements field.type value) := by
  rw [checkField]
  cases hderived : field.derived with
  | false => simp [clean_checkGiven_iff hfield.type]
  | true => simp [clean_raiseIf]

/-! ### Effects -/

theorem eq_ok_or_error (result : Except Exc Unit) : result = .ok () ∨ ∃ e, result = .error e := by
  cases result with
  | ok a => exact .inl rfl
  | error e => exact .inr ⟨e, rfl⟩

variable {result : Except Exc Unit}

theorem not_clean_iff : ¬ Clean result ↔ ∃ e, result = .error e ∧ ¬ e.isRunError = true := by
  simp only [Clean, Classical.not_forall, exists_prop]

theorem not_ok_iff : ¬ result = .ok () ↔ ∃ e, result = .error e := by
  rcases eq_ok_or_error result with h | ⟨e, h⟩ <;> simp [h]

/-- The last dot of a target is the one in front of the name of the field. -/
theorem rpartitionDot_append (id name : String) (hname : '.' ∉ name.toList) :
    rpartitionDot (id ++ "." ++ name) = (id, name) := by
  have hinside : ∀ ch ∈ name.toList.reverse, decide (ch ≠ '.') = true := by
    intro ch hch
    rw [decide_eq_true_iff]
    rintro rfl
    exact hname (List.mem_reverse.mp hch)
  have hchars : (id ++ "." ++ name).toList.reverse =
      name.toList.reverse ++ '.' :: id.toList.reverse := by
    simp [String.toList_append]
  simp only [rpartitionDot, hchars, List.dropWhile_append_of_pos hinside,
    List.takeWhile_append_of_pos hinside]
  simp

variable {doc : Declarations py ops}

/-- The fields of the nodes of a document are as lowering admits them. -/
theorem Declarations.lowered_of_lookup (h : doc.nodes.lookup id = some node) :
    ∀ f ∈ node.fields, f.Lowered := by
  intro f hf
  exact doc.lowered _ (Lib.mem_of_lookup h) f hf

/-- The fields of an entity are clean up to the first that is refused. -/
theorem clean_fields_iff (hfields : ∀ f ∈ fields, f.Lowered) :
    Clean (fields.foldlM (fun _ f => checkField search refinements payload f) ()) ↔
      Lib.NoneBefore (fun f => ¬ Valid search refinements [f] payload)
        (fun f => f.derived = false ∧
          ∃ value, payload[f.name]? = some value ∧ Unordered refinements f.type value) fields := by
  refine Lib.raises_only_iff ?_ ?_
  · intro f hf _
    rw [← not_clean_iff, clean_checkField_iff (hfields f hf), not_not]
  · intro f hf _ _
    rw [← not_ok_iff, checkField_eq_ok (hfields f hf)]

theorem fields_eq_ok (hfields : ∀ f ∈ fields, f.Lowered) :
    fields.foldlM (fun _ f => checkField search refinements payload f) () = .ok () ↔
      Valid search refinements fields payload := by
  have hfield : ∀ f ∈ fields, ∀ _ : Unit,
      (∃ t, checkField search refinements payload f = .ok t) ↔
        Valid search refinements [f] payload := by
    intro f hf _
    rw [← checkField_eq_ok (hfields f hf)]
    exact ⟨fun ⟨_, h⟩ => h, fun h => ⟨(), h⟩⟩
  have hrun := Lib.exists_foldlM_iff hfield (s := ())
  rw [valid_iff_forall, ← hrun]
  exact ⟨fun h => ⟨(), h⟩, fun ⟨_, h⟩ => h⟩

/-- A derived field that is validated alone returns on what satisfies its type, where it should
return on nothing but its absence. -/
theorem checkGiven_derived (hfield : field.Lowered) (hderived : field.derived = true) :
    (checkGiven search refinements payload field.optional field.type field.name = .ok () ↔
        Valid search refinements [field] payload) ↔
      ∃ value, payload[field.name]? = some value ∧
        (value.isNull = true ∨ ¬ Satisfies search refinements field.type value) := by
  rw [checkGiven_eq_ok hfield.type, valid_singleton, hderived, hfield.modifiers hderived]
  cases hgiven : payload[field.name]? with
  | none => simp [get_of_none hgiven]
  | some value =>
    rw [get_of_some hgiven]
    cases hvalue : value.isNull <;> simp [hvalue]

/-- An effect of an entity goes through its fields. -/
theorem validateEffect_entity (declared : doc.nodes.lookup id = some node)
    (kind : node.kind = "Entity") :
    validateEffect search doc.nodes doc.refinements ⟨id, "semantic-types"⟩ payload =
      node.fields.foldlM (fun _ f => checkField search doc.refinements payload f) () := by
  simp only [validateEffect, if_true, declared, kind]

/-- An effect of a field checks it, whether it is derived or not. -/
theorem validateEffect_field (declared : doc.nodes.lookup id = some node) (hfield : field.Lowered)
    (named : node.fields.find? (fun f => f.name = field.name) = some field) :
    validateEffect search doc.nodes doc.refinements ⟨id ++ "." ++ field.name, field.type⟩ payload =
      checkGiven search doc.refinements payload field.optional field.type field.name := by
  simp only [validateEffect, if_neg hfield.type, rpartitionDot_append id field.name hfield.dotless,
    declared, Option.bind_some, named, Option.map_some, Option.getD_some]

/-- **Validation**: an effect of a lowered document raises nothing but a `RunError`, and returns on
the valid payloads, iff no NaN is compared with a limit, and no derived field is validated alone,
unless with a value that its type refuses. -/
theorem validate_effect_iff (search : String → String → Bool) (doc : Declarations py ops)
    (effect : Validation doc) (payload : Dict) :
    Judges search effect payload ↔ effect.Orderly search payload := by
  have hjudges : Judges search effect payload ↔
      Clean (validateEffect search doc.nodes doc.refinements effect.effect payload) ∧
      (validateEffect search doc.nodes doc.refinements effect.effect payload = .ok () ↔
        Valid search doc.refinements effect.fields payload) :=
    ⟨fun h => ⟨h.clean, h.returns⟩, fun h => ⟨h.1, h.2⟩⟩
  rw [hjudges]
  cases effect with
  | entity id node declared kind =>
    have hfields := doc.lowered_of_lookup declared
    rw [Validation.effect, validateEffect_entity declared kind, clean_fields_iff hfields]
    exact and_iff_left (fields_eq_ok hfields)
  | field id node declared f named =>
    have hf : f.Lowered := doc.lowered_of_lookup declared f (List.mem_of_find?_eq_some named)
    rw [Validation.effect, validateEffect_field declared hf named, clean_checkGiven_iff hf.type]
    refine and_congr_right fun _ => ?_
    cases hderived : f.derived with
    | false =>
      have hvalid : checkGiven search doc.refinements payload f.optional f.type f.name = .ok () ↔
          Valid search doc.refinements [f] payload := by
        rw [checkGiven_eq_ok hf.type, valid_singleton, hderived]
        simp
      exact ⟨fun _ h => (nomatch h), fun _ => hvalid⟩
    | true =>
      rw [Validation.fields, checkGiven_derived hf hderived]
      exact ⟨fun h _ => h, fun h => h rfl⟩

end

/-! ### A NaN escapes -/

/-- Python's operations on plain values. -/
def JsonOps.plain : JsonOps where
  repr := Json.plainStr
  str := Json.plainStr
  eq := Json.plainEq

/-- `min 0`. -/
def Limit.zero : Limit Python.ascii JsonOps.plain where
  value := .int 0
  bound := ((0 : ℚ) : WithTop ℚ)
  reads := by
    have hread : decimalOf Python.ascii (JsonOps.plain.str (.int 0)) =
        some (.finite false [0] 0) := by
      decide
    simp [numeralOf, hread, minEtiny, maxEmax, numberOf]

/-- `refine Price : Decimal` with `min 0`, and an entity with a price. -/
def priced : Declarations Python.ascii JsonOps.plain where
  nodes :=
    [("entity.order", { kind := "Entity", fields := [{ name := "price", type := "Price" }] })]
  refinements :=
    [("Price",
      { base := .decimal
        facets := { min := some Limit.zero }
        textual := fun _ => ⟨rfl, rfl, rfl⟩
        numeric := fun h => absurd rfl h })]
  lowered := by
    intro entry hentry f hf
    obtain rfl := List.mem_singleton.mp hentry
    obtain rfl := List.mem_singleton.mp hf
    exact ⟨by decide, by decide, nofun⟩

/-- `validate order` of a price that is written `NaN` raises `decimal.InvalidOperation`. -/
theorem nan_escapes :
    ¬ Judges (fun _ _ => true)
      (Validation.entity "entity.order" _ rfl rfl : Validation priced)
      ((∅ : Dict).insert "price" (.str "NaN")) := by
  intro h
  have hnan : numeralOf Python.ascii "NaN" = some .nan := by
    have hread : decimalOf Python.ascii "NaN" = some .special := by decide
    have hspecial : specialNumeral "NaN" = .nan := by rfl
    simp only [numeralOf, hread, hspecial]
  have horder : priced.nodes.lookup "entity.order" = some _ := rfl
  have hclean := (clean_fields_iff (priced.lowered_of_lookup horder)).mp h.clean
  refine hclean [] _ [] rfl nofun ⟨rfl, .str "NaN", ?_, _, rfl, .inl rfl, rfl, trivial, nofun, hnan⟩
  exact Std.ExtTreeMap.getElem?_insert_self

end Lnpl.Interp
