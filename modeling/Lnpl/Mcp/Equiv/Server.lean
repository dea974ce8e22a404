import Lnpl.Mcp.Server

/-!
# The stdio server answers a line exactly when nothing in it escapes

A turn of the loop writes a response that its client can read if and only if the line is one of
those that `Survives` names, and a run is a sequence of such turns.
-/

namespace Lnpl.Mcp

open Lib.JsonText (Text Json Fields Fault codes codes_injective field loadsText dumpsRaw isFinite
  IsFloat IsSpelled)
open Lib.Percent (Scalar scalar_codes)
open Lib.PyText (strip)

/-! ### Texts that can be encoded -/

variable {text : Text} {depth' : Nat} {response : Json} {p q : Prop} {failure : Failure}

theorem scalar_append {text' : Text} :
    Scalar (text ++ text') ↔ Scalar text ∧ Scalar text' := List.forall_mem_append

theorem isSpelled_spell (py : Python) (literal : Text) : IsSpelled (py.spell literal) := by
  cases hfinite : isFinite literal with
  | true => exact Or.inl (py.spell_finite literal hfinite)
  | false => exact Or.inr (py.spell_infinite literal hfinite)

/-- No number is an infinity, and none is `NaN`. -/
theorem isFloat_spell (py : Python) (literal : Text) :
    IsFloat (py.spell literal) ↔ isFinite literal = true := by
  refine ⟨fun h => ?_, py.spell_finite literal⟩
  cases hfinite : isFinite literal with
  | true => rfl
  | false =>
    have hconstant := py.spell_infinite literal hfinite
    simp only [List.mem_cons, List.not_mem_nil, or_false] at hconstant
    rcases hconstant with heq | heq | heq
    all_goals
      rw [heq] at h
      exact absurd h (by simp [IsFloat, Lib.JsonText.scanNumber, Lib.JsonText.signPart,
        Lib.JsonText.intPart, Lib.JsonText.isDigit, codes])

theorem floats_spelled_isSpelled (py : Python) (value : Json) :
    (value.spelled py.spell).Floats IsSpelled := by
  refine (Lib.JsonText.floats_spelled py.spell IsSpelled value).mpr ?_
  exact Json.Floats.of_forall (isSpelled_spell py) value

/-- A value's text can be encoded iff its strs can. -/
theorem scalar_writeRaw (py : Python) (value : Json) :
    Scalar (value.spelled py.spell).writeRaw ↔ value.Strs Scalar :=
  Lib.JsonText.scalar_spelled (isSpelled_spell py) value

/-- No text of a value breaks its line. -/
theorem newline_not_mem_writeRaw (py : Python) (value : Json) :
    10 ∉ (value.spelled py.spell).writeRaw := by
  have hcodes := @Lib.JsonText.forall_writeRaw (32 ≤ ·) (fun code h => h.1)
    (value.spelled py.spell) (floats_spelled_isSpelled py value)
  have hall : ∀ code ∈ (value.spelled py.spell).writeRaw, 32 ≤ code :=
    hcodes.mpr (Json.Strs.of_forall (fun text code _ => Nat.lt_or_ge code 32) _)
  intro hmem
  exact absurd (hall 10 hmem) (by decide)

/-! ### Values that the server makes -/

/-- A value without floats, not deeper than this. -/
structure Plain (depth : Nat) (value : Json) : Prop where
  loaded : value.Loaded
  floats : value.Floats fun _ => False
  nesting : value.nesting ≤ depth

theorem plain_text (depth : Nat) (text : Text) : Plain depth (.str text) :=
  ⟨trivial, trivial, Nat.zero_le _⟩

theorem plain_str (depth : Nat) (s : String) : Plain depth (str s) := plain_text depth (codes s)

theorem plain_bool (depth : Nat) (b : Bool) : Plain depth (.bool b) :=
  ⟨trivial, trivial, Nat.zero_le _⟩

variable {depth : Nat} {items : List (String × Json)} {value mid body : Json} {key : String}

theorem plain_list {items : List Json} (h : ∀ value ∈ items, Plain depth value) :
    Plain (depth + 1) (.list items) := by
  induction items with
  | nil => exact ⟨trivial, trivial, by rw [Json.nesting, Lib.JsonText.nestingItems]; omega⟩
  | cons value items ih =>
    obtain ⟨hvalue, hitems⟩ := List.forall_mem_cons.mp h
    have hrest := ih hitems
    refine ⟨⟨hvalue.loaded, hrest.loaded⟩, ⟨hvalue.floats, hrest.floats⟩, ?_⟩
    have hdeep := hvalue.nesting
    have hdeeper := hrest.nesting
    rw [Json.nesting] at hdeeper
    rw [Json.nesting, Lib.JsonText.nestingItems]
    omega

/-- Different keys have different code points. -/
theorem nodup_codes (h : (items.map Prod.fst).Nodup) :
    ((items.map fun item => (codes item.1, item.2)).map Prod.fst).Nodup := by
  have hmap : (items.map fun item => (codes item.1, item.2)).map Prod.fst =
      (items.map Prod.fst).map codes := by
    rw [List.map_map, List.map_map]
    rfl
  rw [hmap]
  exact h.map codes_injective

/-- The items of a dict are what is below it. -/
theorem plain_dict (hkeys : (items.map Prod.fst).Nodup) (h : ∀ item ∈ items, Plain depth item.2) :
    Plain (depth + 1) (dict items) := by
  have hcodes := nodup_codes hkeys
  have hbelow : Lib.JsonText.LoadedFields (items.map fun item => (codes item.1, item.2)) ∧
      Lib.JsonText.FloatsFields (fun _ => False) (items.map fun item => (codes item.1, item.2)) ∧
      Lib.JsonText.nestingFields (items.map fun item => (codes item.1, item.2)) ≤ depth := by
    clear hkeys hcodes
    induction items with
    | nil => exact ⟨trivial, trivial, Nat.zero_le _⟩
    | cons item items ih =>
      obtain ⟨hitem, hitems⟩ := List.forall_mem_cons.mp h
      obtain ⟨hloaded, hfloats, hnesting⟩ := ih hitems
      exact ⟨⟨hitem.loaded, hloaded⟩, ⟨hitem.floats, hfloats⟩, max_le hitem.nesting hnesting⟩
  exact ⟨⟨hcodes, hbelow.1⟩, hbelow.2.1, by rw [dict, Json.nesting]; omega⟩

theorem Plain.mono (h : Plain depth value) (hle : depth ≤ depth') :
    Plain depth' value := ⟨h.loaded, h.floats, h.nesting.trans hle⟩

theorem strs_list {items : List Json} :
    (Json.list items).Strs Scalar ↔ ∀ value ∈ items, value.Strs Scalar := by
  rw [Json.Strs]
  induction items with
  | nil => simp [Lib.JsonText.StrsItems]
  | cons value items ih => rw [Lib.JsonText.StrsItems, ih, List.forall_mem_cons]

/-- The keys of a dict that the server makes can be encoded. -/
theorem strs_dict : (dict items).Strs Scalar ↔ ∀ item ∈ items, item.2.Strs Scalar := by
  rw [dict, Json.Strs]
  induction items with
  | nil => simp [Lib.JsonText.StrsFields]
  | cons item items ih =>
    rw [List.map_cons, Lib.JsonText.StrsFields, ih, List.forall_mem_cons]
    exact and_iff_right (scalar_codes item.1)

/-- A plain value whose strs can be encoded. -/
structure Fixed (depth : Nat) (value : Json) : Prop extends Plain depth value where
  strs : value.Strs Scalar

theorem fixed_str (depth : Nat) (s : String) : Fixed depth (str s) :=
  ⟨plain_str depth s, scalar_codes s⟩

theorem fixed_list {items : List Json} (h : ∀ value ∈ items, Fixed depth value) :
    Fixed (depth + 1) (.list items) :=
  ⟨plain_list fun value hvalue => (h value hvalue).toPlain,
    strs_list.mpr fun value hvalue => (h value hvalue).strs⟩

theorem fixed_dict (hkeys : (items.map Prod.fst).Nodup) (h : ∀ item ∈ items, Fixed depth item.2) :
    Fixed (depth + 1) (dict items) :=
  ⟨plain_dict hkeys fun item hitem => (h item hitem).toPlain,
    strs_dict.mpr fun item hitem => (h item hitem).strs⟩

theorem Fixed.mono (h : Fixed depth value) (hle : depth ≤ depth') :
    Fixed depth' value := ⟨h.toPlain.mono hle, h.strs⟩

theorem fixed_property (type description : String) : Fixed 2 (property type description) := by
  refine (fixed_dict (by simp) fun item hitem => ?_).mono (show 0 + 1 ≤ 2 by omega)
  rw [List.mem_cons, List.mem_singleton] at hitem
  rcases hitem with rfl | rfl
  · exact fixed_str 0 type
  · exact fixed_str 0 description

theorem fixed_tool (name description : String) {properties : List (String × Json)}
    (required : List String) (hkeys : (properties.map Prod.fst).Nodup)
    (h : ∀ item ∈ properties, Fixed 2 item.2) :
    Fixed 5 (tool name description properties required) := by
  have hrequired : Fixed 3 (.list (required.map str)) := by
    refine (fixed_list fun value hvalue => ?_).mono (show 0 + 1 ≤ 3 by omega)
    obtain ⟨s, -, rfl⟩ := List.mem_map.mp hvalue
    exact fixed_str 0 s
  have hschema : Fixed 4 (dict ([("type", str "object"), ("properties", dict properties)] ++
      if required = [] then [] else [("required", .list (required.map str))])) := by
    refine fixed_dict (by split <;> simp) fun item hitem => ?_
    rw [List.mem_append, List.mem_cons, List.mem_singleton] at hitem
    rcases hitem with (rfl | rfl) | hitem
    · exact fixed_str 3 "object"
    · exact fixed_dict hkeys h
    · split at hitem
      · cases hitem
      · rw [List.mem_singleton.mp hitem]
        exact hrequired
  refine fixed_dict (by simp) fun item hitem => ?_
  rw [List.mem_cons, List.mem_cons, List.mem_singleton] at hitem
  rcases hitem with rfl | rfl | rfl
  · exact fixed_str 4 name
  · exact fixed_str 4 description
  · exact hschema

/-- What `tools/list` answers can be written. -/
theorem fixed_tools : Fixed 6 (.list tools) := by
  have hgenerators : Fixed 2 (dict [("type", str "string"),
      ("enum", .list [str "compose", str "k8s"]),
      ("description", str "Which generator to run.")]) := by
    refine fixed_dict (by simp) ?_
    simp only [List.forall_mem_cons]
    exact ⟨fixed_str 1 _, fixed_list (by simp [fixed_str]), fixed_str 1 _, fun _ h => nomatch h⟩
  have hoptions : Fixed 2 (dict [("type", str "object"),
      ("additionalProperties", dict [("type", str "string")]),
      ("description", str "Generator options as strings, the keys `--set` accepts.")]) := by
    refine fixed_dict (by simp) ?_
    simp only [List.forall_mem_cons]
    exact ⟨fixed_str 1 _, fixed_dict (by simp) (by simp [fixed_str]), fixed_str 1 _,
      fun _ h => nomatch h⟩
  have hargument : Fixed 2 textArgument ∧ Fixed 2 sourcePathArgument ∧ Fixed 2 moduleArgument :=
    ⟨fixed_property _ _, fixed_property _ _, fixed_property _ _⟩
  refine fixed_list ?_
  unfold tools
  simp only [List.forall_mem_cons]
  refine ⟨?_, ?_, ?_, ?_, ?_, ?_, ?_, ?_, fun _ h => nomatch h⟩
  all_goals
    refine fixed_tool _ _ _ (by simp) ?_
    simp [fixed_property, hargument, hgenerators, hoptions]

/-! ### Responses -/

/-- The response with this id, and a result or an error. -/
def reply (key : String) (mid body : Json) : Json :=
  dict [("jsonrpc", str "2.0"), ("id", mid), (key, body)]

theorem nesting_reply (key : String) (mid body : Json) :
    (reply key mid body).nesting = 1 + max mid.nesting body.nesting := by
  show 1 + max 0 (max mid.nesting (max body.nesting 0)) = _
  omega

theorem loaded_reply (hkey : key = "result" ∨ key = "error") (hmid : mid.Loaded)
    (hbody : body.Loaded) : (reply key mid body).Loaded := by
  refine ⟨?_, trivial, hmid, hbody, trivial⟩
  have hkeys : ([("jsonrpc", str "2.0"), ("id", mid), (key, body)].map Prod.fst).Nodup := by
    show ["jsonrpc", "id", key].Nodup
    rcases hkey with rfl | rfl <;> decide
  exact nodup_codes hkeys

theorem strs_reply (key : String) (mid body : Json) :
    (reply key mid body).Strs Scalar ↔ mid.Strs Scalar ∧ body.Strs Scalar := by
  rw [reply, strs_dict, List.forall_mem_cons, List.forall_mem_cons, List.forall_mem_singleton]
  exact and_iff_right (scalar_codes "2.0")

/-- A response is written if it is not nested too deep and has no lone surrogate. -/
theorem write_eq_ok {py : Python} {line : Text} :
    write py response = .ok line ↔ response.nesting ≤ py.writeRoom ∧ response.Strs Scalar ∧
      line = (response.spelled py.spell).writeRaw ++ [10] := by
  unfold write dumpsRaw
  by_cases hroom : py.writeRoom < response.nesting
  · rw [if_pos hroom]
    exact iff_of_false (fun h => nomatch h) fun h => by omega
  · rw [if_neg hroom]
    dsimp only
    by_cases hscalar : response.Strs Scalar
    · rw [if_pos ((scalar_writeRaw py response).mpr hscalar)]
      constructor
      · intro h
        exact ⟨by omega, hscalar, (Except.ok.inj h).symm⟩
      · rintro ⟨-, -, rfl⟩
        rfl
    · rw [if_neg fun h => hscalar ((scalar_writeRaw py response).mp h)]
      exact iff_of_false (fun h => nomatch h) fun h => hscalar h.2.1

/-- What a reader finds in the line of a response. -/
theorem isResponse_reply {py : Python} (hkey : key = "result" ∨ key = "error") (hmid : mid.Loaded)
    (hbody : Plain 15 body) :
    IsResponse (mid.spelled py.spell) (((reply key mid body).spelled py.spell).writeRaw ++ [10]) ↔
      mid.Floats fun literal => isFinite literal = true := by
  have hloaded := (Lib.JsonText.loaded_spelled py.spell _).mpr
    (loaded_reply hkey hmid hbody.loaded)
  have hread := Lib.JsonText.loadsText_writeRaw hloaded (floats_spelled_isSpelled py _)
  have hspelled : (reply key mid body).spelled py.spell =
      .dict [(codes "jsonrpc", str "2.0"), (codes "id", mid.spelled py.spell),
        (codes key, body.spelled py.spell)] := rfl
  have hbodyFloats : (body.spelled py.spell).Floats IsFloat :=
    (Lib.JsonText.floats_spelled py.spell IsFloat body).mpr
      (Json.Floats.imp (fun _ h => h.elim) body hbody.floats)
  have hmidFloats : (mid.spelled py.spell).Floats IsFloat ↔
      mid.Floats fun literal => isFinite literal = true := by
    rw [Lib.JsonText.floats_spelled]
    exact ⟨Json.Floats.imp (fun literal => (isFloat_spell py literal).mp) mid,
      Json.Floats.imp (fun literal => (isFloat_spell py literal).mpr) mid⟩
  constructor
  · rintro ⟨text, fields, htext, -, hloads, hfloats, -⟩
    obtain rfl := List.append_cancel_right htext
    rw [hread, hspelled] at hloads
    rw [← Except.ok.inj hloads] at hfloats
    exact hmidFloats.mp hfloats.2.1
  · intro hfinite
    rw [hspelled] at hread
    refine ⟨_, _, rfl, newline_not_mem_writeRaw py _, hread,
      ⟨trivial, hmidFloats.mpr hfinite, hbodyFloats, trivial⟩, rfl, rfl, ?_⟩
    rcases hkey with rfl | rfl
    · exact iff_of_true rfl rfl
    · exact iff_of_false Bool.false_ne_true Bool.false_ne_true

/-- **A response** is written, and can be read, iff its id can be written and its body encoded. -/
theorem written_iff {py : Python} (hkey : key = "result" ∨ key = "error") (hmid : mid.Loaded)
    (hbody : Plain 15 body) :
    (∃ line, write py (reply key mid body) = .ok line ∧
      IsResponse (mid.spelled py.spell) line) ↔ Echoable py mid ∧ body.Strs Scalar := by
  have hroom := py.le_writeRoom
  have hdeep := hbody.nesting
  have hnesting := nesting_reply key mid body
  simp only [write_eq_ok, strs_reply]
  constructor
  · rintro ⟨line, ⟨hle, hstrs, rfl⟩, hresponse⟩
    exact ⟨⟨by omega, hstrs.1, (isResponse_reply hkey hmid hbody).mp hresponse⟩, hstrs.2⟩
  · rintro ⟨⟨hlt, hstrs, hfinite⟩, hbodyStrs⟩
    exact ⟨_, ⟨by omega, ⟨hstrs, hbodyStrs⟩, rfl⟩,
      (isResponse_reply hkey hmid hbody).mpr hfinite⟩

/-! ### What `handle` answers -/

/-- A response with this id, whose body can be encoded iff `p` holds. -/
def Responds (mid : Json) (p : Prop) (response : Json) : Prop :=
  ∃ key body, (key = "result" ∨ key = "error") ∧ response = reply key mid body ∧ Plain 15 body ∧
    (body.Strs Scalar ↔ p)

theorem Responds.congr (h : Responds mid p response) (hiff : p ↔ q) : Responds mid q response := by
  obtain ⟨key, body, hkey, hresponse, hbody, hstrs⟩ := h
  exact ⟨key, body, hkey, hresponse, hbody, hstrs.trans hiff⟩

/-- The response, or the failure whose traceback is answered, can be encoded iff `p` holds. -/
def Settles (py : Python) (mid : Json) (p : Prop) : Except Failure Json → Prop
  | .ok response => Responds mid p response
  | .error failure => Scalar (py.traceback failure) ↔ p

/-- An error can be encoded iff its message can. -/
theorem responds_error (mid : Json) {code : Int}
    (hcode : (Nat.toDigits 10 code.natAbs).length ≤ Lib.Py.intDigitsLimit) (message : Text) :
    Responds mid (Scalar message) (error mid code message) := by
  refine ⟨"error", _, Or.inr rfl, rfl, ?_, ?_⟩
  · refine (plain_dict (by simp) ?_).mono (show 0 + 1 ≤ 15 by omega)
    intro item hitem
    rw [List.mem_cons, List.mem_singleton] at hitem
    rcases hitem with rfl | rfl
    · exact ⟨hcode, trivial, Nat.zero_le _⟩
    · exact plain_text 0 message
  · rw [strs_dict, List.forall_mem_cons, List.forall_mem_singleton]
    exact and_iff_right trivial

theorem Settles.congr {py : Python} {result : Except Failure Json} (h : Settles py mid p result)
    (hiff : p ↔ q) : Settles py mid q result := by
  cases result with
  | ok response => exact Responds.congr h hiff
  | error failure => exact Iff.trans h hiff

/-- The text of a tool is all that may not be encoded. -/
theorem responds_content (mid : Json) (text : Text) (isError : Bool) :
    Responds mid (Scalar text) (ok mid (content text isError)) := by
  refine ⟨"result", _, Or.inl rfl, rfl, ?_, ?_⟩
  · have hentry : Plain 1 (dict [("type", str "text"), ("text", .str text)]) := by
      refine plain_dict (by simp) fun item hitem => ?_
      rw [List.mem_cons, List.mem_singleton] at hitem
      rcases hitem with rfl | rfl
      · exact plain_str 0 "text"
      · exact plain_text 0 text
    refine (plain_dict (by simp) ?_).mono (show 2 + 1 ≤ 15 by omega)
    intro item hitem
    rw [List.mem_cons, List.mem_singleton] at hitem
    rcases hitem with rfl | rfl
    · exact plain_list (List.forall_mem_singleton.mpr hentry)
    · exact plain_bool 2 isError
  · rw [content, strs_dict, List.forall_mem_cons, List.forall_mem_singleton, strs_list,
      List.forall_mem_singleton, strs_dict, List.forall_mem_cons, List.forall_mem_singleton]
    exact (and_iff_left trivial).trans (and_iff_right (scalar_codes "text"))

theorem paramsOf_error {py : Python} {fields : Fields} (h : paramsOf fields = .error failure) :
    Scalar (py.traceback failure) := by
  unfold paramsOf at h
  split at h
  · split at h
    · cases h
    · obtain rfl := Except.error.inj h
      exact py.scalar_attributeError _
  · cases h

theorem handlerOf_error {py : Python} {name : Json} (h : handlerOf name = .error failure) :
    Scalar (py.traceback failure) := by
  cases name with
  | list items =>
    obtain rfl := Except.error.inj h
    exact py.scalar_typeError _
  | dict fields =>
    obtain rfl := Except.error.inj h
    exact py.scalar_typeError _
  | null | bool | int | float | str => cases h

/-- A message with a `repr` in it can be encoded, and so can the failure to make it. -/
theorem settles_formatted (py : Python) (mid : Json) {code : Int}
    (hcode : (Nat.toDigits 10 code.natAbs).length ≤ Lib.Py.intDigitsLimit) {front back : Text}
    (hfront : Scalar front) (hback : Scalar back) (value : Json) :
    Settles py mid True ((formatted py front value back).map (error mid code)) := by
  unfold formatted
  cases hrepr : py.repr value with
  | none => exact iff_of_true (py.scalar_recursionError value) trivial
  | some text =>
    refine (responds_error mid hcode _).congr (iff_of_true ?_ trivial)
    exact scalar_append.mpr ⟨scalar_append.mpr ⟨hfront, py.scalar_repr value text hrepr⟩, hback⟩

theorem versionFor_eq (params : Fields) : ∃ s, versionFor params = str s := by
  unfold versionFor
  split
  · next hany =>
    obtain ⟨version, -, hversion⟩ := List.any_eq_true.mp hany
    cases hfield : field params "protocolVersion" with
    | str text =>
      rw [hfield, Json.isText, beq_iff_eq] at hversion
      exact ⟨version, congrArg Json.str hversion⟩
    | null | bool | int | float | list | dict =>
      rw [hfield] at hversion
      cases hversion
  · exact ⟨protocolVersion, rfl⟩

/-- A result that is the server's own can be encoded. -/
theorem responds_fixed (mid : Json) {result : Json} (h : Fixed 15 result) :
    Responds mid True (ok mid result) :=
  ⟨"result", result, Or.inl rfl, rfl, h.toPlain, iff_of_true h.strs trivial⟩

theorem settles_initialized (py : Python) (imports : Bool) (fields : Fields) :
    Settles py (field fields "id") True (initialized imports fields) := by
  unfold initialized
  cases hparams : paramsOf fields with
  | error failure => exact iff_of_true (paramsOf_error hparams) trivial
  | ok params =>
    obtain ⟨version, hversion⟩ := versionFor_eq params
    have hinfo : Fixed 2 (dict [("name", str "lnpl"),
        ("version", str (if imports then lnplVersion else "unknown"))]) := by
      refine fixed_dict (by simp) ?_
      simp only [List.forall_mem_cons]
      exact ⟨fixed_str 1 _, fixed_str 1 _, fun _ h => nomatch h⟩
    have htools : Fixed 2 (dict [("tools", dict [])]) :=
      fixed_dict (by simp) (List.forall_mem_singleton.mpr
        (fixed_dict (by simp) fun _ h => nomatch h))
    refine responds_fixed _ (Fixed.mono (fixed_dict (by simp) ?_) (show 2 + 1 ≤ 15 by omega))
    simp only [List.forall_mem_cons]
    exact ⟨hversion ▸ fixed_str 2 version, htools, hinfo, fun _ h => nomatch h⟩

/-- A call settles iff the text of the tool, if it calls one, can be encoded. -/
theorem settles_called (py : Python) (run : Tool → Json → Outcome) {fields : Fields}
    (hjsonrpc : (field fields "jsonrpc").isText (codes "2.0") = true)
    (hmethod : (field fields "method").isText (codes "tools/call") = true) :
    Settles py (field fields "id") (∀ call ∈ calls fields, (run call.1 call.2).Encodable)
      (called py run fields) := by
  have hcall : (field fields "jsonrpc").isText (codes "2.0") &&
      (field fields "method").isText (codes "tools/call") := by
    rw [hjsonrpc, hmethod]
    rfl
  unfold called calls
  rw [if_pos hcall]
  cases hparams : paramsOf fields with
  | error failure => exact iff_of_true (paramsOf_error hparams) fun _ h => nomatch h
  | ok params =>
    dsimp only
    cases hhandler : handlerOf (field params "name") with
    | error failure => exact iff_of_true (handlerOf_error hhandler) fun _ h => nomatch h
    | ok found =>
      cases found with
      | none =>
        have hsettles := @settles_formatted py (field fields "id") invalidParams (by decide) _ _
          (scalar_codes "unknown tool ")
          (scalar_codes (" (have: " ++ ", ".intercalate (handlers.map Tool.name) ++ ")"))
          (field params "name")
        exact hsettles.congr (iff_of_true trivial fun _ h => nomatch h)
      | some tool =>
        have hsingle : (∀ call ∈ some (tool, argumentsOf params), (run call.1 call.2).Encodable) ↔
            (run tool (argumentsOf params)).Encodable := by
          constructor
          · exact fun h => h _ rfl
          · rintro h call hcall
            rw [← Option.some.inj hcall]
            exact h
        dsimp only
        rw [hsingle]
        cases run tool (argumentsOf params) with
        | raised report => exact responds_content _ report true
        | text payload => exact responds_content _ payload false
        | document dumped =>
          cases dumped with
          | ok text => exact responds_content _ text false
          | error trace =>
            show Scalar (py.traceback (.dumps trace)) ↔ Scalar trace
            rw [py.traceback_dumps]

theorem isText_iff : value.isText text = true ↔ value = .str text := by
  cases value with
  | str other => rw [Json.isText, beq_iff_eq, Json.str.injEq]
  | null | bool | int | float | list | dict =>
    exact iff_of_false (fun h => nomatch h) (fun h => nomatch h)

/-- Only `tools/call` calls a tool. -/
theorem calls_eq_none {fields : Fields}
    (h : (field fields "jsonrpc").isText (codes "2.0") = false ∨
      (field fields "method").isText (codes "tools/call") = false) : calls fields = none := by
  unfold calls
  rw [if_neg]
  rcases h with h | h <;> simp [h]

section

variable {World : Type} (py : Python) (compiler : Compiler World) (world : World) {fields : Fields}

theorem handle_notification (h : IsNotification fields) :
    handle py compiler world fields = .ok none := by
  obtain ⟨hjsonrpc, hsilent⟩ := h
  unfold handle
  dsimp only
  rw [hjsonrpc, if_neg (by decide)]
  by_cases hready : (field fields "method").isText (codes "notifications/initialized") = true
  · rw [if_pos hready]
  · rw [if_neg hready, hsilent.resolve_left hready]

/-- **`handle`** answers every other message, and only a tool's text may not be encoded. -/
theorem settles_handle (h : ¬IsNotification fields) : ∃ result : Except Failure Json,
    handle py compiler world fields = result.map some ∧
      Settles py (field fields "id")
        (∀ call ∈ calls fields, (compiler.run world call.1 call.2).Encodable) result := by
  have hnone : calls fields = none →
      (True ↔ ∀ call ∈ calls fields, (compiler.run world call.1 call.2).Encodable) := by
    intro hcalls
    rw [hcalls]
    exact iff_of_true trivial fun _ h => by cases h
  by_cases hjsonrpc : (field fields "jsonrpc").isText (codes "2.0") = true
  swap
  · have hfalse := Bool.eq_false_iff.mpr hjsonrpc
    refine ⟨.ok (error (field fields "id") invalidRequest (codes "jsonrpc must be \"2.0\"")),
      ?_, ?_⟩
    · unfold handle
      dsimp only
      rw [hfalse]
      exact if_pos rfl
    · have hcalls := hnone (calls_eq_none (.inl hfalse))
      exact (responds_error _ (by decide) _).congr
        (Iff.trans (iff_of_true (scalar_codes _) trivial) hcalls)
  have hready : ¬(field fields "method").isText (codes "notifications/initialized") = true :=
    fun hready => h ⟨hjsonrpc, Or.inl hready⟩
  have hmid : field fields "id" ≠ .null := fun hmid => h ⟨hjsonrpc, Or.inr hmid⟩
  have hhandle : handle py compiler world fields =
      if (field fields "method").isText (codes "initialize") then
        (initialized (compiler.imports world) fields).map some
      else if (field fields "method").isText (codes "tools/list") then
        .ok (some (ok (field fields "id") (dict [("tools", .list tools)])))
      else if (field fields "method").isText (codes "tools/call") then
        (called py (compiler.run world) fields).map some
      else ((formatted py (codes "unknown method ") (field fields "method") []).map
        (error (field fields "id") methodNotFound)).map some := by
    unfold handle
    dsimp only
    rw [hjsonrpc, if_neg (by decide), if_neg hready]
    cases hvalue : field fields "id" with
    | null => exact absurd hvalue hmid
    | bool | int | float | str | list | dict => rfl
  rw [hhandle]
  by_cases hcall : (field fields "method").isText (codes "tools/call") = true
  · have hmethod := isText_iff.mp hcall
    have hother : ∀ name, codes "tools/call" ≠ codes name →
        ¬(field fields "method").isText (codes name) = true := by
      intro name hname hname'
      exact hname (Json.str.inj (hmethod.symm.trans (isText_iff.mp hname')))
    rw [if_neg (hother "initialize" (by decide)), if_neg (hother "tools/list" (by decide)),
      if_pos hcall]
    exact ⟨_, rfl, settles_called py _ hjsonrpc hcall⟩
  · have hcalls := hnone (calls_eq_none (.inr (Bool.eq_false_iff.mpr hcall)))
    rw [if_neg hcall]
    by_cases hinitialize : (field fields "method").isText (codes "initialize") = true
    · rw [if_pos hinitialize]
      exact ⟨_, rfl, (settles_initialized py _ fields).congr hcalls⟩
    · rw [if_neg hinitialize]
      by_cases hlist : (field fields "method").isText (codes "tools/list") = true
      · have hresult : Fixed 15 (dict [("tools", .list tools)]) :=
          (fixed_dict (by simp) (List.forall_mem_singleton.mpr fixed_tools)).mono
            (show 6 + 1 ≤ 15 by omega)
        rw [if_pos hlist]
        exact ⟨.ok _, rfl, (responds_fixed _ hresult).congr hcalls⟩
      · rw [if_neg hlist]
        have hempty : Scalar [] := fun _ hcode => by cases hcode
        exact ⟨_, rfl,
          (settles_formatted py _ (by decide) (scalar_codes _) hempty _).congr hcalls⟩

/-- The response to a message, whether `handle` answers or fails. -/
theorem respond_dict (h : ¬IsNotification fields) : ∃ response,
    respond py compiler world (.dict fields) = .ok (some response) ∧
      Responds (field fields "id")
        (∀ call ∈ calls fields, (compiler.run world call.1 call.2).Encodable) response := by
  obtain ⟨result, hhandle, hsettles⟩ := settles_handle py compiler world h
  cases result with
  | ok response =>
    refine ⟨response, ?_, hsettles⟩
    rw [respond, hhandle]
    rfl
  | error failure =>
    refine ⟨error (field fields "id") internalError (py.traceback failure), ?_, ?_⟩
    · rw [respond, hhandle]
      rfl
    · exact (responds_error _ (by decide) _).congr hsettles

end

/-! ### The loop -/

theorem loaded_field {fields : Fields} (h : (Json.dict fields).Loaded) (key : String) :
    (field fields key).Loaded := by
  unfold field
  cases hlookup : fields.lookup (codes key) with
  | none => trivial
  | some value =>
    obtain ⟨before, after, hsplit, -⟩ := List.lookup_eq_some_iff.mp hlookup
    refine Lib.JsonText.loadedFields_iff.mp h.2 (codes key, value) ?_
    rw [hsplit]
    exact List.mem_append_right _ List.mem_cons_self

section

variable {World : Type} (py : Python) (compiler : Compiler World)

/-- What a turn writes for a response is read iff its id can be written and it can be encoded. -/
theorem writes_iff {mid response : Json} {p : Prop} (hmid : mid.Loaded)
    (h : Responds mid p response) :
    (∃ written, (write py response).map (fun line => [line]) = .ok written ∧
      ∃ line, written = [line] ∧ IsResponse (mid.spelled py.spell) line) ↔
        Echoable py mid ∧ p := by
  obtain ⟨key, body, hkey, rfl, hbody, hstrs⟩ := h
  rw [← hstrs, ← written_iff hkey hmid hbody]
  constructor
  · rintro ⟨written, hwrite, line, rfl, hresponse⟩
    obtain ⟨line', hline, heq⟩ := Lib.map_eq_ok.mp hwrite
    obtain rfl := List.singleton_inj.mp heq
    exact ⟨line', hline, hresponse⟩
  · rintro ⟨line, hwrite, hresponse⟩
    exact ⟨[line], by rw [hwrite]; rfl, line, rfl, hresponse⟩

/-- **A turn** answers its line if and only if the line is one that the loop survives. -/
theorem answers_iff (world : World) (line : Text) :
    (∃ written, serveLine py compiler world line = .ok written ∧ Answers py line written) ↔
      Survives py compiler world line := by
  unfold serveLine Answers Survives
  by_cases hblank : strip line = []
  · simp [hblank]
  simp only [hblank, if_false, false_or]
  cases hloads : loadsText py.readRoom (strip line) with
  | error fault =>
    cases fault with
    | recursionError =>
      dsimp only
      refine iff_of_false ?_ ?_
      · rintro ⟨written, h, -⟩
        cases h
      · rintro (h | ⟨fields, h, -⟩) <;> cases h
    | valueError =>
      have hscalar : Scalar (codes "invalid JSON: " ++ py.fault (strip line)) :=
        scalar_append.mpr ⟨scalar_codes _, py.scalar_fault _⟩
      have hroom := py.le_writeRoom
      have hnull : Echoable py .null := ⟨show 0 < py.writeRoom by omega, trivial, trivial⟩
      have hresponds : Responds .null _ (error .null parseError _) :=
        responds_error .null (by decide) (codes "invalid JSON: " ++ py.fault (strip line))
      have hmid : Json.null.Loaded := trivial
      exact iff_of_true ((writes_iff py hmid hresponds).mpr ⟨hnull, hscalar⟩) (Or.inl rfl)
  | ok message =>
    have hloaded := Lib.JsonText.loaded_of_loadsText hloads
    dsimp only
    cases message with
    | dict fields =>
      have hsurvives : (Except.ok (Json.dict fields) = (.error .valueError : Except Fault Json) ∨
          ∃ fields', Except.ok (Json.dict fields) = (.ok (.dict fields') : Except Fault Json) ∧
            (IsNotification fields' ∨ Echoable py (field fields' "id") ∧
              ∀ call ∈ calls fields', (compiler.run world call.1 call.2).Encodable)) ↔
          (IsNotification fields ∨ Echoable py (field fields "id") ∧
            ∀ call ∈ calls fields, (compiler.run world call.1 call.2).Encodable) := by
        constructor
        · rintro (h | ⟨fields', h, hfields⟩)
          · cases h
          · cases h
            exact hfields
        · exact fun h => Or.inr ⟨fields, rfl, h⟩
      rw [hsurvives]
      by_cases hnotification : IsNotification fields
      · have hrespond : respond py compiler world (.dict fields) = .ok none := by
          rw [respond, handle_notification py compiler world hnotification]
        rw [hrespond]
        exact iff_of_true ⟨[], rfl, Or.inl ⟨hnotification, rfl⟩⟩ (Or.inl hnotification)
      · obtain ⟨response, hrespond, hresponds⟩ := respond_dict py compiler world hnotification
        rw [hrespond, or_iff_right hnotification,
          ← writes_iff py (loaded_field hloaded "id") hresponds]
        simp only [hnotification, false_and, not_false_eq_true, true_and, false_or]
    | null | bool | int | float | str | list =>
      refine iff_of_false ?_ ?_
      · rintro ⟨written, h, -⟩
        cases h
      · rintro (h | ⟨fields, h, -⟩) <;> cases h

/-- **The contract of `serve`** holds of a run if and only if it holds of each line. -/
theorem survives_iff (lines : List (World × Text)) :
    Serves py compiler lines ↔ ∀ line ∈ lines, Survives py compiler line.1 line.2 := by
  induction lines with
  | nil => exact iff_of_true ⟨.nil, rfl⟩ fun _ h => nomatch h
  | cons line lines ih =>
    rw [List.forall_mem_cons, ← ih, ← answers_iff py compiler line.1 line.2]
    constructor
    · rintro ⟨hanswers, hreturns⟩
      rw [serve] at hanswers hreturns
      cases hline : serveLine py compiler line.1 line.2 with
      | error escape =>
        simp only [hline] at hreturns
        cases hreturns
      | ok written =>
        simp only [hline] at hanswers hreturns
        obtain ⟨hfirst, hrest⟩ := List.forall₂_cons.mp hanswers
        exact ⟨⟨written, rfl, hfirst⟩, ⟨hrest, hreturns⟩⟩
    · rintro ⟨⟨written, hline, hfirst⟩, ⟨hanswers, hreturns⟩⟩
      have hserve : serve py compiler (line :: lines) =
          ⟨written :: (serve py compiler lines).written, (serve py compiler lines).raised⟩ := by
        rw [serve, hline]
      constructor
      · rw [hserve]
        exact List.forall₂_cons.mpr ⟨hfirst, hanswers⟩
      · rw [hserve]
        exact hreturns

end

/-! ### A line that ends the server -/

/-- An interpreter whose texts are these. -/
def plainPython : Python where
  readRoom := 990
  writeRoom := 990
  spell := fun literal => if isFinite literal then codes "0.5" else codes "NaN"
  repr := fun _ => some (codes "None")
  fault := fun _ => codes "Expecting value: line 1 column 1 (char 0)"
  traceback := fun failure => match failure with
    | .dumps trace => trace
    | _ => codes "Traceback (most recent call last):"
  le_writeRoom := by decide
  spell_finite := by
    intro literal h
    rw [if_pos h]
    rfl
  spell_infinite := by
    intro literal h
    rw [if_neg (Bool.eq_false_iff.mp h)]
    exact List.mem_cons_self
  scalar_repr := by
    intro value text h
    rw [← Option.some.inj h]
    exact scalar_codes _
  scalar_fault := fun _ => scalar_codes _
  scalar_attributeError := fun _ => scalar_codes _
  scalar_typeError := fun _ => scalar_codes _
  scalar_recursionError := fun _ => scalar_codes _
  traceback_dumps := fun _ => rfl

/-- A compiler whose tools answer nothing. -/
def silentCompiler : Compiler Unit where
  imports := fun _ => true
  run := fun _ _ _ => .text []

/-- A line with an array ends the loop: `handle` asks the list for its items, and so does the code
that catches its failure. -/
theorem not_serves_array : ¬Serves plainPython silentCompiler [((), codes "[]\n")] := by
  intro h
  have hraised : (serve plainPython silentCompiler [((), codes "[]\n")]).raised =
      some .attributeError := by rfl
  exact absurd (hraised.symm.trans h.returns) (by decide)

end Lnpl.Mcp
