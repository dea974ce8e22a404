import Lnpl.Front.Equiv.Lexer
import Lnpl.Serve.Requests

/-!
# Requests that are answered

A request of the four routes is answered with a well-formed response, and leaves no claim behind
that its run has not begun, if and only if everything that is parsed, digested and written on the
way goes through (`answered_iff`).
-/

namespace Lnpl.Serve.Requests

open Front (Python)
open Lib.JsonText (Text Json Fields codes encodeUtf8 field loads dumpsRaw)
open Lib.Percent (Scalar scalar_codes)
open IfMatch (parseIfMatch etagValue)
open Pagination (parseLimit)
open Subscribe (lastEventId)

section

variable {rt : Runtime}

/-- A condition on what there is. -/
theorem forall_mem_some {α : Type} {p : α → Prop} {a : α} : (∀ x ∈ some a, p x) ↔ p a :=
  ⟨fun h => h a rfl, fun h _ hx => Option.some.inj hx ▸ h⟩

/-! ### Writing -/

theorem encoded_eq_ok_iff (value : Json) :
    (∃ text, encoded rt value = .ok text) ↔ Encodable rt value := by
  unfold encoded dumpsRaw Encodable
  by_cases hroom : rt.writeRoom < value.nesting
  · rw [if_pos hroom]
    exact iff_of_false (fun ⟨_, h⟩ => nomatch h) fun h => by omega
  · rw [if_neg hroom, ← Lib.JsonText.scalar_spelled rt.isSpelled_spell value]
    dsimp only
    by_cases hscalar : Scalar (value.spelled rt.spell).writeRaw
    · rw [if_pos hscalar]
      exact iff_of_true ⟨_, rfl⟩ ⟨by omega, hscalar⟩
    · rw [if_neg hscalar]
      exact iff_of_false (fun ⟨_, h⟩ => nomatch h) fun h => hscalar h.2

/-- A response is sent, and it is well formed. -/
def Sent (result : Except Escape Response) : Prop :=
  ∃ response, result = .ok response ∧ response.WellFormed

theorem not_sent_error (escape : Escape) : ¬Sent (.error escape) := fun ⟨_, h, _⟩ => nomatch h

theorem sent_jsonResponse (status : Nat) (body : Json) :
    Sent (jsonResponse rt status body) ↔ Writable rt body := by
  unfold Writable
  rw [← encoded_eq_ok_iff, jsonResponse]
  cases encoded rt body with
  | error escape => exact iff_of_false (not_sent_error escape) fun ⟨⟨_, h⟩, _⟩ => nomatch h
  | ok text =>
    constructor
    · rintro ⟨response, h, hfinite⟩
      rw [← Except.ok.inj h] at hfinite
      exact ⟨⟨text, rfl⟩, hfinite⟩
    · exact fun h => ⟨_, rfl, h.2⟩

/-- What the server itself answers can be written. -/
theorem writable_problem (status : Nat) (code detail : String) (correlationId : Option String) :
    Writable rt (problem status code detail correlationId) := by
  have hroom := rt.le_writeRoom
  unfold problem
  cases correlationId with
  | none =>
    refine ⟨⟨?_, scalar_codes _, scalar_codes _, scalar_codes _, trivial, scalar_codes _,
      scalar_codes _, scalar_codes _, scalar_codes _, trivial⟩, ⟨trivial, trivial, trivial, trivial,
      trivial⟩⟩
    exact le_trans (by decide : 1 ≤ 2) hroom
  | some correlationId =>
    refine ⟨⟨?_, scalar_codes _, scalar_codes _, scalar_codes _, trivial, scalar_codes _,
      scalar_codes _, scalar_codes _, scalar_codes _, scalar_codes _, scalar_codes _, trivial⟩,
      ⟨trivial, trivial, trivial, trivial, trivial, trivial⟩⟩
    exact le_trans (by decide : 1 ≤ 2) hroom

theorem sent_problem (status : Nat) (code detail : String) (correlationId : Option String) :
    Sent (answer rt correlationId (.error (.problem status code detail))) :=
  (sent_jsonResponse status _).mpr (writable_problem status code detail correlationId)

/-- Only an exception is not answered. -/
theorem sent_answer_error (correlationId : Option String) (failure : Failure) :
    Sent (answer rt correlationId (.error failure)) ↔ ∀ escape, failure ≠ .escaped escape := by
  cases failure with
  | problem status code detail => exact iff_of_true (sent_problem _ _ _ _) fun _ h => nomatch h
  | escaped escape => exact iff_of_false (not_sent_error escape) fun h => h escape rfl

theorem sent_answer_ok (correlationId : Option String) (response : Nat × Json) :
    Sent (answer rt correlationId (.ok response)) ↔ Writable rt response.2 :=
  sent_jsonResponse response.1 response.2

theorem answered_iff_sent {claim : Claim} (hclaim : claim ≠ .inProgress false)
    (result : Except Escape Response) : Answered ⟨claim, result⟩ ↔ Sent result :=
  ⟨fun h => h.answer, fun h => ⟨h, hclaim⟩⟩

theorem not_answered_error (claim : Claim) (escape : Escape) : ¬Answered ⟨claim, .error escape⟩ :=
  fun h => not_sent_error escape h.answer

theorem answered_unclaimed (result : Except Escape Response) :
    Answered ⟨.none, result⟩ ↔ Sent result :=
  answered_iff_sent (by decide) result

/-- A request without a claim that is refused. -/
theorem answered_refused (correlationId : Option String) (failure : Failure) :
    Answered ⟨.none, answer rt correlationId (.error failure)⟩ ↔
      ∀ escape, failure ≠ .escaped escape :=
  (answered_unclaimed _).trans (sent_answer_error correlationId failure)

theorem of_ne_inProgress {claimed : Bool} {claim : Claim} (h : claim ≠ .inProgress false) :
    Claim.of claimed claim ≠ .inProgress false := by
  cases claimed with
  | false => exact fun h => nomatch h
  | true => exact h

/-! ### Bodies -/

/-- An exception leaves the reading of a body iff it is nested too deep. -/
theorem readJsonBody_escaped_iff (body : Body) :
    (∀ escape, readJsonBody rt body ≠ .error (.escaped escape)) ↔ body.Fits rt := by
  unfold readJsonBody Body.Fits Shallow
  by_cases hlong : maxBodyBytes < body.length.getD 0
  · rw [if_pos hlong]
    exact iff_of_true (fun _ h => nomatch h) fun h => by omega
  rw [if_neg hlong]
  by_cases hempty : body.raw = []
  · rw [if_pos hempty]
    exact iff_of_true (fun _ h => nomatch h) fun _ h => absurd hempty h
  rw [if_neg hempty]
  cases loads rt.codecs rt.readRoom body.raw with
  | error fault =>
    cases fault with
    | recursionError =>
      exact iff_of_false (fun h => h _ rfl) fun h => h (by omega) hempty rfl
    | valueError => exact iff_of_true (fun _ h => nomatch h) fun _ _ h => nomatch h
  | ok value =>
    refine iff_of_true ?_ fun _ _ h => nomatch h
    cases value
    all_goals exact fun _ h => nomatch h

/-- A route that reads a body: it fits, and what is done with its payload does. -/
theorem answered_of_body {body : Body} {next : Fields → Outcome} {p : Fields → Prop}
    (hnext : ∀ payload, readJsonBody rt body = .ok payload →
      (Answered (next payload) ↔ p payload)) :
    Answered (match readJsonBody rt body with
      | .error failure => ⟨.none, answer rt none (.error failure)⟩
      | .ok payload => next payload) ↔
      body.Fits rt ∧ ∀ payload, readJsonBody rt body = .ok payload → p payload := by
  rw [← readJsonBody_escaped_iff]
  cases hread : readJsonBody rt body with
  | error failure =>
    dsimp only
    rw [answered_refused]
    constructor
    · exact fun h => ⟨fun escape heq => h escape (Except.error.inj heq), fun _ heq => nomatch heq⟩
    · exact fun h escape heq => h.1 escape (congrArg Except.error heq)
  | ok payload =>
    dsimp only
    rw [hnext payload hread]
    constructor
    · intro h
      refine ⟨fun _ heq => (nomatch heq), fun other heq => ?_⟩
      rw [← Except.ok.inj heq]
      exact h
    · exact fun h => h.2 payload rfl

/-! ### Claims -/

/-- A response behind a claim that has been looked up. -/
theorem answered_begun {begun : Begun} {p : Prop} {claimed : Bool → Outcome}
    {first second : Failure} {correlationId : Option String}
    (hclaimed : ∀ b, Answered (claimed b) ↔ p)
    (hfirst : ∀ escape, first ≠ .escaped escape) (hsecond : ∀ escape, second ≠ .escaped escape) :
    Answered (match begun with
      | .unsupported => ⟨.none, answer rt correlationId (.error first)⟩
      | .inProgress => ⟨.none, answer rt correlationId (.error second)⟩
      | .done status body => ⟨.none, answer rt none (.ok (status, body))⟩
      | .unclaimed => claimed false
      | .started => claimed true) ↔ begun.Fits rt p := by
  cases begun with
  | unsupported => exact iff_of_true ((answered_refused _ _).mpr hfirst) trivial
  | inProgress => exact iff_of_true ((answered_refused _ _).mpr hsecond) trivial
  | done status body =>
    exact (answered_unclaimed _).trans (sent_answer_ok none (status, body))
  | unclaimed => exact hclaimed false
  | started => exact hclaimed true

/-! ### Numbers -/

theorem decimals_isSome_iff (py : Python) (text : List Char) (n : Nat) :
    (py.decimals text n).isSome ↔ ∀ ch ∈ text, (py.decimal ch).isSome := by
  induction text generalizing n with
  | nil => exact iff_of_true rfl fun _ h => nomatch h
  | cons ch text ih =>
    rw [List.forall_mem_cons, Python.decimals]
    cases py.decimal ch with
    | none => exact iff_of_false Bool.false_ne_true fun h => Bool.false_ne_true h.1
    | some d => exact (ih (10 * n + d)).trans (and_iff_right rfl).symm

/-- What `int` converts. -/
theorem int_eq_ok_iff (py : Python) (text : List Char) : (∃ n, py.int text = .ok n) ↔
    text.length ≤ Front.intMaxStrDigits ∧ ∀ ch ∈ text, (py.decimal ch).isSome := by
  unfold Python.int
  by_cases hlong : Front.intMaxStrDigits < text.length
  · rw [if_pos hlong]
    exact iff_of_false (fun ⟨_, h⟩ => nomatch h) fun h => by omega
  · rw [if_neg hlong, ← decimals_isSome_iff py text 0]
    cases py.decimals text 0 with
    | none => exact iff_of_false (fun ⟨_, h⟩ => nomatch h) fun h => Bool.false_ne_true h.2
    | some n => exact iff_of_true ⟨n, rfl⟩ ⟨by omega, rfl⟩

/-- A text that `isdigit` lets through is converted, or raises. -/
theorem convertible_iff (py : Python) (text : List Char) : Convertible py text ↔
    (py.isdigit (String.ofList text) = true → ∃ n, py.int text = .ok n) :=
  imp_congr_right fun _ => (int_eq_ok_iff py text).symm

/-! ### The workflow route -/

theorem parseIfMatch_eq (py : Python) (value : String) : parseIfMatch py value =
    match quoted value with
    | none => .ok none
    | some digits =>
      if !py.isdigit (String.ofList digits) then .ok none else some <$> py.int digits := by
  unfold parseIfMatch quoted
  dsimp only
  generalize (if ['W', '/'].isPrefixOf (IfMatch.strip value.toList) = true then
    (IfMatch.strip value.toList).drop 2 else IfMatch.strip value.toList) = text
  by_cases h : text.length < 2 ∨ text.head? ≠ some '"' ∨ text.getLast? ≠ some '"'
  · rw [if_pos h, if_pos h]
  · rw [if_neg h, if_neg h]

/-- No exception leaves `_parse_if_match`. -/
theorem parseIfMatch_returns_iff (py : Python) (value : String) :
    (∀ fault, parseIfMatch py value ≠ .error fault) ↔
      ∀ digits ∈ quoted value, Convertible py digits := by
  rw [parseIfMatch_eq]
  cases quoted value with
  | none => exact iff_of_true (fun _ h => nomatch h) fun _ h => nomatch h
  | some digits =>
    rw [forall_mem_some, convertible_iff]
    dsimp only
    cases hdigit : py.isdigit (String.ofList digits) with
    | false => exact iff_of_true (fun _ h => nomatch h) fun h => nomatch h
    | true =>
      cases py.int digits with
      | error fault =>
        exact iff_of_false (fun h => h fault rfl) fun h => nomatch (h rfl).choose_spec
      | ok n => exact iff_of_true (fun _ h => nomatch h) fun _ => ⟨n, rfl⟩

section

variable (service : Service)
include service

/-- No exception leaves the precondition. -/
theorem precondition_returns_iff (payload : Fields) (ifMatch : Option String) :
    (∀ escape, precondition rt service payload ifMatch ≠ .error escape) ↔
      ∀ header ∈ ifMatch, HeaderFits rt service payload header := by
  cases ifMatch with
  | none => exact iff_of_true (fun _ h => nomatch h) fun _ h => nomatch h
  | some header =>
    rw [forall_mem_some, HeaderFits, ← parseIfMatch_returns_iff, precondition]
    cases parseIfMatch rt.py header with
    | error fault => exact iff_of_false (fun h => h _ rfl) fun h => h.1 fault rfl
    | ok claimed =>
      cases claimed with
      | none =>
        exact iff_of_true (fun _ h => nomatch h) ⟨fun _ h => (nomatch h), fun _ h => nomatch h⟩
      | some version =>
        constructor
        · intro h
          refine ⟨fun _ heq => (nomatch heq), fun other heq => ?_⟩
          obtain rfl := Option.some.inj (Except.ok.inj heq)
          exact h
        · exact fun h => h.2 version rfl

theorem prepared_eq_ok_iff (payload : Fields) :
    (∃ digest, prepared rt service payload = .ok digest) ↔
      Encodable rt (service.mask payload) ∧ service.seed payload = .ok () := by
  rw [← encoded_eq_ok_iff, prepared, inputDigest]
  cases service.seed payload with
  | error escape => exact iff_of_false (fun ⟨_, h⟩ => nomatch h) fun h => nomatch h.2
  | ok => exact (and_iff_left rfl).symm

/-- A request with its claim, if it has one. -/
theorem answered_respondClaimed (r : WorkflowRequest) (payload : Fields) (claimed : Bool) :
    Answered (respondClaimed rt service r payload claimed) ↔ RunFits rt service r payload := by
  have hsettled := @of_ne_inProgress claimed .settled (by decide)
  have hran := @of_ne_inProgress claimed (.inProgress true) (by decide)
  unfold respondClaimed RunFits
  rw [← precondition_returns_iff]
  cases precondition rt service payload r.ifMatch with
  | error escape => exact iff_of_false (not_answered_error _ escape) fun h => h.1 escape rfl
  | ok refused =>
    have hreturns : ∀ escape : Escape, Except.ok refused ≠ .error escape := fun _ h => nomatch h
    rw [and_iff_right hreturns]
    cases refused with
    | some refused =>
      refine iff_of_true ((answered_iff_sent hsettled _).mpr ?_) fun h => nomatch h
      exact sent_problem _ _ _ _
    | none =>
      rw [EventFits, ← and_assoc, ← prepared_eq_ok_iff]
      simp only [forall_const]
      cases prepared rt service payload with
      | error escape =>
        exact iff_of_false (not_answered_error _ escape) fun h => nomatch h.1.choose_spec
      | ok digest =>
        rw [and_iff_right ⟨digest, rfl⟩]
        cases service.run payload with
        | none =>
          refine iff_of_true ((answered_iff_sent hran _).mpr ?_) fun _ h => nomatch h
          exact sent_problem _ _ _ _
        | some response =>
          dsimp only
          rw [answered_iff_sent hsettled, sent_answer_ok, forall_mem_some]

/-- **The workflow route.** -/
theorem answered_postWorkflow (r : WorkflowRequest) :
    Answered (postWorkflow rt service r) ↔ Fits rt service (.workflow r) := by
  refine answered_of_body fun payload _ => ?_
  by_cases hlong : (r.key.any fun key => maxIdempotencyKeyLength < key.length) = true
  · rw [if_pos hlong]
    refine iff_of_true ((answered_refused _ _).mpr fun _ h => nomatch h) fun hkey => ?_
    cases hsent : r.key with
    | none => simp [hsent] at hlong
    | some key =>
      rw [hsent] at hlong
      exact absurd (of_decide_eq_true hlong) (Nat.not_lt.mpr (hkey key hsent))
  · rw [if_neg hlong]
    have hkey : ∀ key ∈ r.key, key.length ≤ maxIdempotencyKeyLength := by
      intro key hmem
      rw [Option.mem_def.mp hmem] at hlong
      exact Nat.not_lt.mp fun hlt => hlong (decide_eq_true hlt)
    rw [respond]
    refine Iff.trans ?_ (forall_prop_of_true hkey).symm
    exact answered_begun (answered_respondClaimed service r payload) (fun _ h => nomatch h)
      fun _ h => nomatch h

/-! ### The event consume route -/

theorem answered_consumeClaimed (r : EventRequest) (data : Fields) (claimed : Bool) :
    Answered (consumeClaimed rt service r data claimed) ↔ EventFits rt service data := by
  have hreleased : released service ≠ .inProgress false := by
    unfold released
    split
    all_goals decide
  unfold consumeClaimed EventFits
  cases service.seed data with
  | error escape => exact iff_of_false (not_answered_error _ escape) fun h => nomatch h.1
  | ok =>
    rw [and_iff_right rfl]
    cases service.run data with
    | none =>
      have hclaim := @of_ne_inProgress claimed _ hreleased
      refine iff_of_true ((answered_iff_sent hclaim _).mpr ?_) fun _ h => nomatch h
      exact sent_problem _ _ _ _
    | some response =>
      have hclaim : (if response.1 = 503 then released service else .settled) ≠
          .inProgress false := by
        split
        · exact hreleased
        · decide
      dsimp only
      rw [answered_iff_sent (of_ne_inProgress hclaim), sent_answer_ok, forall_mem_some]

/-- **The event consume route.** -/
theorem answered_postEvent (r : EventRequest) :
    Answered (postEvent rt service r) ↔ Fits rt service (.event r) := by
  refine answered_of_body fun fields _ => ?_
  cases validateCloudevents rt fields with
  | error failure =>
    refine (answered_refused _ _).trans ?_
    constructor
    · exact fun h => ⟨fun escape heq => h escape (Except.error.inj heq), fun heq => nomatch heq⟩
    · exact fun h escape heq => h.1 escape (congrArg Except.error heq)
  | ok invalid =>
    have hreturns : ∀ escape, Except.ok invalid ≠ .error (Failure.escaped escape) :=
      fun _ h => nomatch h
    rw [and_iff_right hreturns]
    cases invalid with
    | some invalid =>
      exact iff_of_true ((answered_refused _ _).mpr fun _ h => nomatch h) fun h => nomatch h
    | none =>
      refine Iff.trans ?_ (forall_prop_of_true rfl).symm
      dsimp only
      by_cases hlong : maxIdempotencyKeyLength < (encodeUtf8 (textOf (field fields "id"))).length
      · rw [if_pos hlong]
        exact iff_of_true ((answered_refused _ _).mpr fun _ h => nomatch h) fun h => by omega
      · rw [if_neg hlong, consumeValid]
        refine Iff.trans ?_ (forall_prop_of_true (Nat.not_lt.mp hlong)).symm
        exact answered_begun (answered_consumeClaimed service r (dataOf fields))
          (fun _ h => nomatch h) fun _ h => nomatch h

end

/-! ### The list route -/

/-- Only what is nested too deep leaves `decode_cursor`. -/
theorem decodeCursor_returns_iff (token : String) :
    (∀ escape, decodeCursor rt token ≠ .error (.escaped escape)) ↔
      ∀ raw ∈ cursorBytes token, Shallow rt raw := by
  unfold decodeCursor Shallow
  cases cursorBytes token with
  | none => exact iff_of_true (fun _ h => nomatch h) fun _ h => nomatch h
  | some raw =>
    rw [forall_mem_some]
    dsimp only
    cases loads rt.codecs rt.readRoom raw with
    | error fault =>
      cases fault with
      | recursionError => exact iff_of_false (fun h => h _ rfl) fun h => h rfl
      | valueError => exact iff_of_true (fun _ h => nomatch h) fun h => nomatch h
    | ok value =>
      refine iff_of_true ?_ fun h => nomatch h
      cases value with
      | dict data =>
        dsimp only
        split
        all_goals exact fun _ h => nomatch h
      | null | bool | int | float | str | list => exact fun _ h => nomatch h

theorem readPage_returns_iff (r : ListRequest) :
    (∀ escape, readPage rt r ≠ .error (.escaped escape)) ↔
      ∀ limit, parseLimit rt.py r.limit = .ok limit →
        ∀ token ∈ r.after, ∀ raw ∈ cursorBytes token, Shallow rt raw := by
  unfold readPage
  cases parseLimit rt.py r.limit with
  | error detail => exact iff_of_true (fun _ h => nomatch h) fun _ h => nomatch h
  | ok limit =>
    cases r.after with
    | none => exact iff_of_true (fun _ h => nomatch h) fun _ _ _ h => nomatch h
    | some token =>
      have hall : (∀ other, Except.ok limit = (Except.ok other : Except String Nat) →
          ∀ other ∈ some token, ∀ raw ∈ cursorBytes other, Shallow rt raw) ↔
            ∀ raw ∈ cursorBytes token, Shallow rt raw :=
        ⟨fun h => h limit rfl token rfl, fun h _ _ other hother => Option.some.inj hother ▸ h⟩
      rw [hall, ← decodeCursor_returns_iff]
      dsimp only
      refine forall_congr' fun escape => not_congr ?_
      cases decodeCursor rt token with
      | error failure =>
        exact ⟨fun h => congrArg Except.error (Except.error.inj h),
          fun h => congrArg Except.error (Except.error.inj h)⟩
      | ok after => exact iff_of_false (fun h => nomatch h) fun h => nomatch h

/-- The token of a cursor is ASCII. -/
theorem scalar_of_encodeCursor {last : Json × Json} {next : Text}
    (h : encodeCursor rt last = .ok next) : Scalar next := by
  obtain ⟨text, -, rfl⟩ := Lib.map_eq_ok.mp h
  intro code hcode
  obtain ⟨ch, -, rfl⟩ := List.mem_map.mp hcode
  exact ch.valid

theorem sent_respondList (correlationId : String) (listed : Listed) :
    Sent (respondList rt correlationId listed) ↔ ∀ items last, listed = .page items last →
      Writable rt (listBody items .null) ∧ ∀ pair ∈ last, Encodable rt (cursorBody pair) := by
  have hpage (items : List Json) (last : Option (Json × Json)) :
      (∀ items' last', Listed.page items last = .page items' last' →
        Writable rt (listBody items' .null) ∧ ∀ pair ∈ last', Encodable rt (cursorBody pair)) ↔
      Writable rt (listBody items .null) ∧ ∀ pair ∈ last, Encodable rt (cursorBody pair) := by
    refine ⟨fun h => h items last rfl, ?_⟩
    rintro h items' last' heq
    obtain ⟨rfl, rfl⟩ := Listed.page.inj heq
    exact h
  cases listed with
  | failed | mismatch =>
    refine iff_of_true (sent_problem _ _ _ _) fun _ _ h => ?_
    cases h
  | page items last =>
    rw [hpage]
    cases last with
    | none =>
      refine (sent_jsonResponse 200 _).trans (and_iff_left fun _ h => ?_).symm
      cases h
    | some last =>
      rw [forall_mem_some, ← encoded_eq_ok_iff, respondList]
      cases hnext : encodeCursor rt last with
      | error escape =>
        refine iff_of_false (not_sent_error escape) fun h => ?_
        obtain ⟨text, htext⟩ := h.2
        rw [encodeCursor, htext] at hnext
        cases hnext
      | ok next =>
        obtain ⟨text, htext, -⟩ := Lib.map_eq_ok.mp hnext
        have hscalar := scalar_of_encodeCursor hnext
        refine (sent_jsonResponse 200 _).trans (Iff.trans ?_ (and_iff_left ⟨text, htext⟩).symm)
        constructor
        · rintro ⟨⟨hroom, hitemsKey, hitems, hnextKey, -, -⟩, hfinite, -⟩
          exact ⟨⟨hroom, hitemsKey, hitems, hnextKey, trivial, trivial⟩, hfinite, trivial, trivial⟩
        · rintro ⟨⟨hroom, hitemsKey, hitems, hnextKey, -, -⟩, hfinite, -⟩
          exact ⟨⟨hroom, hitemsKey, hitems, hnextKey, hscalar, trivial⟩, hfinite, trivial, trivial⟩

/-- **The list route.** -/
theorem answered_getList (service : Service) (r : ListRequest) :
    Answered (getList rt service r) ↔ Fits rt service (.list r) := by
  unfold getList Fits
  dsimp only
  rw [← readPage_returns_iff]
  cases readPage rt r with
  | error failure =>
    refine (answered_refused _ _).trans ?_
    constructor
    · exact fun h =>
        ⟨fun escape heq => h escape (Except.error.inj heq), fun _ _ _ _ heq => nomatch heq⟩
    · exact fun h escape heq => h.1 escape (congrArg Except.error heq)
  | ok page =>
    have hreturns : ∀ escape, Except.ok page ≠ .error (Failure.escaped escape) :=
      fun _ h => nomatch h
    rw [and_iff_right hreturns]
    refine (answered_unclaimed _).trans ((sent_respondList _ _).trans ?_)
    constructor
    · intro h limit after items last heq
      obtain rfl := Except.ok.inj heq
      exact h items last
    · exact fun h items last => h page.1 page.2 items last rfl

/-! ### The event stream route -/

theorem frames_eq_ok_iff (rows : List (Nat × Json)) :
    (∃ sent, frames rt rows = .ok sent) ↔ ∀ row ∈ rows, Encodable rt row.2 := by
  induction rows with
  | nil => exact iff_of_true ⟨[], rfl⟩ fun _ h => nomatch h
  | cons row rows ih =>
    rw [List.forall_mem_cons, ← ih, ← encoded_eq_ok_iff, frames]
    cases encoded rt row.2 with
    | error escape => exact iff_of_false (fun ⟨_, h⟩ => nomatch h) fun h => nomatch h.1.choose_spec
    | ok text =>
      rw [and_iff_right ⟨text, rfl⟩]
      cases frames rt rows with
      | error escape => exact iff_of_false (fun ⟨_, h⟩ => nomatch h) fun ⟨_, h⟩ => nomatch h
      | ok sent => exact iff_of_true ⟨_, rfl⟩ ⟨sent, rfl⟩

/-- **The event stream route.** -/
theorem answered_subscribe (service : Service) (header : Option String) :
    Answered (subscribe rt service header) ↔ Fits rt service (.stream header) := by
  have hread : (∀ fault, lastEventId rt.py header ≠ .error (.raised fault)) ↔
      ∀ text ∈ header, Convertible rt.py text.toList := by
    cases header with
    | none => exact iff_of_true (fun _ h => nomatch h) fun _ h => nomatch h
    | some text =>
      rw [forall_mem_some, convertible_iff, String.ofList_toList, lastEventId]
      cases rt.py.isdigit text with
      | false => exact iff_of_true (fun _ h => nomatch h) fun h => nomatch h
      | true =>
        cases rt.py.int text.toList with
        | error fault =>
          exact iff_of_false (fun h => h fault rfl) fun h => nomatch (h rfl).choose_spec
        | ok n => exact iff_of_true (fun _ h => nomatch h) fun _ => ⟨n, rfl⟩
  unfold subscribe Fits
  dsimp only
  rw [← hread]
  cases lastEventId rt.py header with
  | error rejection =>
    cases rejection with
    | cursorInvalid detail =>
      refine iff_of_true ((answered_unclaimed _).mpr (sent_problem _ _ _ _)) ?_
      exact ⟨fun _ h => (nomatch h), fun _ _ h => nomatch h⟩
    | raised fault => exact iff_of_false (not_answered_error _ _) fun h => h.1 fault rfl
  | ok afterSeq =>
    have hreturns : ∀ fault, Except.ok afterSeq ≠ .error (Subscribe.Rejection.raised fault) :=
      fun _ h => nomatch h
    rw [and_iff_right hreturns]
    refine (answered_unclaimed _).trans ?_
    unfold sseFrames
    cases service.polls with
    | none => exact iff_of_true ⟨_, rfl, trivial⟩ fun _ _ _ h => nomatch h
    | some polls =>
      have hall : (∀ after other,
          Except.ok afterSeq = (Except.ok after : Except Subscribe.Rejection Nat) →
          some polls = some other → after ≤ Front.int64Max ∧
            ∀ row ∈ (other after).flatten, Encodable rt row.2) ↔
          afterSeq ≤ Front.int64Max ∧ ∀ row ∈ (polls afterSeq).flatten, Encodable rt row.2 := by
        refine ⟨fun h => h afterSeq polls rfl rfl, ?_⟩
        rintro h after other hafter hother
        obtain rfl := Except.ok.inj hafter
        obtain rfl := Option.some.inj hother
        exact h
      rw [hall, ← frames_eq_ok_iff]
      dsimp only
      by_cases hlarge : Front.int64Max < afterSeq
      · rw [if_pos hlarge]
        exact iff_of_false (not_sent_error _) fun h => by omega
      · rw [if_neg hlarge, and_iff_right (Nat.not_lt.mp hlarge)]
        cases frames rt (polls afterSeq).flatten with
        | error escape => exact iff_of_false (not_sent_error _) fun ⟨_, h⟩ => nomatch h
        | ok sent => exact iff_of_true ⟨_, rfl, trivial⟩ ⟨sent, rfl⟩

/-! ### Entity tags -/

/-- A version is read of ASCII digits only iff `int` converts no others here. -/
theorem readsTag_iff (py : Python) (value : String) : ReadsTag py value ↔ TagFits py value := by
  unfold ReadsTag TagFits
  rw [parseIfMatch_eq]
  cases quoted value with
  | none => exact iff_of_true (fun _ h => nomatch h) fun _ h => nomatch h
  | some digits =>
    dsimp only
    constructor
    · intro h other hother hdigit hlength hdecimal
      obtain rfl := Option.some.inj hother
      obtain ⟨n, hn⟩ := (int_eq_ok_iff py digits).mpr ⟨hlength, hdecimal⟩
      rw [hdigit, hn] at h
      obtain ⟨found, hfound, -, hascii, -⟩ := h n rfl
      obtain rfl := Option.some.inj hfound
      exact hascii
    · intro h version hversion
      cases hdigit : py.isdigit (String.ofList digits) with
      | false =>
        rw [hdigit] at hversion
        cases Except.ok.inj hversion
      | true =>
        rw [hdigit] at hversion
        obtain ⟨n, hn, hsome⟩ := Lib.map_eq_ok.mp hversion
        obtain rfl := Option.some.inj hsome
        obtain ⟨hlength, hdecimal⟩ := (int_eq_ok_iff py digits).mp ⟨n, hn⟩
        have hascii := h digits rfl hdigit hlength hdecimal
        refine ⟨digits, rfl, ?_, hascii, ?_⟩
        · rintro rfl
          cases hdigit
        · rw [Python.int, if_neg (by omega), py.decimals_ascii hascii] at hn
          exact (Except.ok.inj hn).symm

theorem quoted_etagValue (version : Nat) :
    quoted (etagValue version) = some (Nat.toDigits 10 version) := by
  have htext : (etagValue version).toList =
      'W' :: '/' :: '"' :: (Nat.toDigits 10 version ++ ['"']) := by
    rw [etagValue, Nat.toString_eq_ofList_toDigits, String.toList_append, String.toList_append,
      String.toList_ofList, String.toList_ofList]
    rfl
  have hstrip : IfMatch.strip (etagValue version).toList =
      'W' :: '/' :: '"' :: (Nat.toDigits 10 version ++ ['"']) := by
    have hfront : Front.isSpace 'W' = false := by decide
    have hback : Front.isSpace '"' = false := by decide
    simp [htext, IfMatch.strip, hfront, hback]
  have hlast : ('"' :: (Nat.toDigits 10 version ++ ['"'])).getLast? = some '"' := by
    rw [← List.cons_append]
    exact List.getLast?_concat
  unfold quoted
  rw [hstrip]
  simp [hlast]

/-- The tag of a version is read as the version, as long as `int` converts it. -/
theorem parseIfMatch_etagValue (py : Python) (version : Nat) :
    parseIfMatch py (etagValue version) = .ok (some version) ↔
      (Nat.toDigits 10 version).length ≤ Front.intMaxStrDigits := by
  rw [parseIfMatch_eq, quoted_etagValue]
  dsimp only
  rw [py.isdigit_toDigits, Python.int]
  by_cases hlong : Front.intMaxStrDigits < (Nat.toDigits 10 version).length
  · rw [if_pos hlong]
    exact iff_of_false (fun h => by cases h) fun h => by omega
  · rw [if_neg hlong, py.decimals_ascii fun _ => Front.isDigit_of_mem_toDigits,
      Nat.ofDigitChars_ten_toDigits]
    exact iff_of_true rfl (Nat.not_lt.mp hlong)

/-- **Requests are answered** if and only if they fit. -/
theorem answered_iff (rt : Runtime) (service : Service) :
    (∀ request, Answered (handle rt service request) ↔ Fits rt service request) ∧
      (∀ value, ReadsTag rt.py value ↔ TagFits rt.py value) ∧
      ∀ version, parseIfMatch rt.py (etagValue version) = .ok (some version) ↔
        (Nat.toDigits 10 version).length ≤ Front.intMaxStrDigits := by
  refine ⟨fun request => ?_, readsTag_iff rt.py, parseIfMatch_etagValue rt.py⟩
  cases request with
  | workflow r => exact answered_postWorkflow service r
  | event r => exact answered_postEvent service r
  | list r => exact answered_getList service r
  | stream header => exact answered_subscribe service header

end

/-! ### A claim that stays -/

/-- A Python to which `²` is a digit, as it is to every Python, and `int` does not read it. -/
def latinRuntime : Runtime where
  py := { Python.ascii with
    isDigit := fun ch => ch.isDigit || ch = '²'
    isDigit_ascii := by
      intro ch h
      have hne : ch ≠ '²' := by
        rintro rfl
        exact absurd h (by decide)
      simp [hne] }
  codecs _ _ := none
  readRoom := 1000
  writeRoom := 1000
  spell _ := codes "NaN"
  repr _ := some ""
  isSpelled_spell _ := .inr (by decide)
  le_writeRoom := by decide

/-- A service whose keys are all fresh. -/
def freshService : Service where
  driver := "SqliteRepositoryDriver"
  begun _ := .started
  mask := .dict
  precondition _ _ := .ok none
  seed _ := .ok ()
  run _ := some (200, .null)
  releases := true
  page _ _ := .page [] none
  polls := none

/-- `If-Match: "²"` raises behind the claim, which stays in progress. -/
theorem not_answered_superscript : ¬Answered (handle latinRuntime freshService
    (.workflow ⟨⟨none, []⟩, some "key", some "\"²\"", "req-1"⟩)) := by
  intro h
  exact h.claim (by decide)

end Lnpl.Serve.Requests
