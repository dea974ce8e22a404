import Lnpl.Protocol.Idempotency
import Lnpl.Protocol.Equiv.Decisions

/-!
# Idempotent requests

The stored responses are the ledger: for each key the text of the params, and the result.  As long
as requests are `Guarded`, every operation is run once for its key, and answered as the ledger says
(`idempotencyLaw_guarded`).  A handler that is named by another spelling is reached without a key
(`not_idempotencyLaw`).
-/

namespace Lnpl.Protocol

open Lnpl.Lib Lnpl.Lib.Py

variable {setup : Setup} {reader : Reader} {s t : Server} {request params : Fields}
  {ledger : List Success} {op : Operation}

/-! ### Operations -/

/-- What a request for an operation has. -/
structure AsksFor (request : Fields) (op : Operation) : Prop where
  version : (field request "jsonrpc").eq (.str "2.0") = true
  isMethod : field request "method" = .str op.method
  isHandler : handlerOf op.method = some op.handler
  creates : op.handler = .agentDispatch ∨ op.handler = .irPropose
  isParams : (field request "params").orElse (.dict []) = .dict op.params

theorem asksFor (h : operation? request = some op) : AsksFor request op := by
  unfold operation? at h
  split_ifs at h with hversion
  split at h
  · next method params hmethod hparams =>
    split at h
    · next hhandler =>
      rw [← Option.some.inj h]
      exact
        { version := hversion
          isMethod := hmethod
          isHandler := hhandler
          creates := .inl rfl
          isParams := hparams }
    · next hhandler =>
      rw [← Option.some.inj h]
      exact
        { version := hversion
          isMethod := hmethod
          isHandler := hhandler
          creates := .inr rfl
          isParams := hparams }
    · cases h
  · cases h

/-- A guarded operation goes through `_idempotent`. -/
theorem handle_of_operation (setup : Setup) (s : Server) (h : AsksFor request op)
    (hdotted : op.method ∈ idempotentMethods) :
    s.handle setup request =
      ((s.idempotent setup op.method op.handler op.params).1, .ok (respond (field request "id")
        (s.idempotent setup op.method op.handler op.params).2)) := by
  have hname : op.method ≠ "" := by
    intro hempty
    have hhandler := h.isHandler
    rw [hempty] at hhandler
    exact absurd hhandler (by
      rw [show handlerOf "" = none by decide]
      exact Option.some_ne_none _ ∘ Eq.symm)
  have hcontains : idempotentMethods.contains op.method = true := List.contains_iff_mem.mpr hdotted
  unfold Server.handle
  rw [h.version, h.isMethod]
  simp only [Bool.not_true, Bool.false_eq_true, if_false, Value.truthy, hname, ne_eq,
    not_false_eq_true, decide_true, h.isHandler, handleParams, h.isParams, hcontains, if_true]

/-! ### Handlers -/

variable {handler : Handler} {text : String} {fields : Fields}

/-- What an operation that is run does. -/
theorem run_of_creates (s : Server) (h : handler = .agentDispatch ∨ handler = .irPropose)
    (params : Fields) :
    (∃ e, s.run setup handler params = (s, .error e)) ∨
      ∃ t result, s.run setup handler params = (t, .ok result) ∧ t.idem = s.idem ∧
        t.tasks.length = s.tasks.length + 1 ∧
        t.proposals.length = s.proposals.length + if handler = .irPropose then 1 else 0 := by
  rcases h with rfl | rfl
  · cases hrun : s.agentDispatch setup params with
    | error e =>
      left
      refine ⟨e, ?_⟩
      rw [Server.run, hrun]
      rfl
    | ok result =>
      obtain ⟨t, task⟩ := result
      right
      refine ⟨t, task.toDict, ?_, ?_⟩
      · rw [Server.run, hrun]
        rfl
      · obtain ⟨rfl, -, -⟩ := agentDispatch_ok hrun
        exact ⟨rfl, List.length_append, rfl⟩
  · cases hrun : s.irPropose setup params with
    | error e =>
      left
      refine ⟨e, ?_⟩
      rw [Server.run, hrun]
    | ok result =>
      obtain ⟨t, value⟩ := result
      right
      refine ⟨t, value, ?_, ?_⟩
      · rw [Server.run, hrun]
      · obtain ⟨task, proposal, -, -, -, -, -, -, rfl⟩ := irPropose_ok hrun
        exact ⟨rfl, List.length_append, List.length_append⟩

/-- A request that asks for no operation creates nothing, and stores nothing. -/
theorem sameNumbers_handle (setup : Setup) (s : Server) (h : operation? request = none) :
    SameNumbers s (s.handle setup request).1 := by
  unfold Server.handle
  dsimp only
  split_ifs with hversion hmethod
  · exact sameNumbers_refl
  · exact sameNumbers_refl
  · split
    · next name hname =>
      split
      · exact sameNumbers_refl
      · next handler hhandler =>
        dsimp only
        unfold handleParams
        split
        · next params hparams =>
          have hother : handler ≠ .agentDispatch ∧ handler ≠ .irPropose := by
            unfold operation? at h
            rw [if_pos (by simpa using hversion), hname, hparams] at h
            dsimp only at h
            rw [hhandler] at h
            constructor
            · rintro rfl
              cases h
            · rintro rfl
              cases h
          have hdirect : idempotentMethods.contains name = false := by
            unfold idempotentMethods
            rw [List.contains_eq_mem, decide_eq_false_iff_not, List.mem_pair]
            rintro (rfl | rfl)
            · rw [show handlerOf "agent.dispatch" = some .agentDispatch by decide]
                at hhandler
              exact hother.1 (Option.some.inj hhandler).symm
            · rw [show handlerOf "ir.propose" = some .irPropose by decide] at hhandler
              exact hother.2 (Option.some.inj hhandler).symm
          rw [hdirect, if_neg Bool.false_ne_true]
          cases handler with
          | agentCard | irGet | kbRoute | kbLoad | kbVerify => exact sameNumbers_refl
          | agentReport => exact sameNumbers_agentReport ..
          | agentDispatch => exact absurd rfl hother.1
          | irPropose => exact absurd rfl hother.2
        · exact sameNumbers_refl
    · exact sameNumbers_refl

/-! ### Stored responses -/

/-- The stored response of a success. -/
def Success.stored (success : Success) : Key × String × Value :=
  (success.key, (Value.dict success.rest).dumps, success.result)

theorem lookup_stored {success : Success} (hkeys : (ledger.map Success.key).Nodup)
    (h : success ∈ ledger) : (ledger.map Success.stored).lookup success.key =
      some ((Value.dict success.rest).dumps, success.result) :=
  lookup_of_nodup (by rwa [List.map_map]) (List.mem_map_of_mem h)

variable {key : Key} {result : Value}

theorem mem_of_lookup_stored (h : (ledger.map Success.stored).lookup key = some (text, result)) :
    ∃ success ∈ ledger, success.key = key := by
  have hsome : ((ledger.map Success.stored).lookup key).isSome := by
    rw [h]
    rfl
  obtain ⟨entry, hentry, hkey⟩ := List.lookup_isSome_iff.mp hsome
  obtain ⟨success, hmem, rfl⟩ := List.mem_map.mp hentry
  exact ⟨success, hmem, (beq_iff_eq.mp hkey).symm⟩

theorem not_mem_of_lookup_stored (h : (ledger.map Success.stored).lookup key = none) :
    key ∉ ledger.map Success.key := by
  intro hmem
  obtain ⟨success, hsuccess, rfl⟩ := List.mem_map.mp hmem
  have hne := List.lookup_eq_none_iff.mp h success.stored (List.mem_map_of_mem hsuccess)
  exact absurd rfl (bne_iff_ne.mp hne)

/-- An operation without a key. -/
theorem idempotent_keyless (setup : Setup) (s : Server) (method : String) (handler : Handler)
    (h : (field params "idempotency_key").truthy = false) :
    ∃ e, s.idempotent setup method handler params = (s, .error e) := by
  unfold Server.idempotent
  dsimp only
  rw [h]
  exact ⟨_, rfl⟩

/-- A key that is stored. -/
theorem idempotent_stored {method : String}
    (htruthy : (field params "idempotency_key").truthy = true)
    (hkey : (field params "idempotency_key").hash = .ok key)
    (h : s.idem.lookup key = some (text, result)) :
    s.idempotent setup method handler params =
      if text ≠ (Value.dict (params.filter fun entry => entry.1 != "idempotency_key")).dumps then
        (s, .error (.rpc {
          type := .idempotencyMismatch
          message := .str "idempotency key reused with different params"
          details := [("key", field params "idempotency_key")] }))
      else (s, .ok result) := by
  unfold Server.idempotent
  dsimp only
  rw [htruthy, hkey]
  dsimp only
  rw [h]
  rfl

/-- What becomes of an operation. -/
inductive OperationOutcome (setup : Setup) (s : Server) (request : Fields) (op : Operation) :
    Prop where
  | refused (e : Raised)
      (h : s.handle setup request = (s, .ok (respond (field request "id") (.error e))))
  | repeated (key : Key) (text : String) (result : Value) (hkey : op.key.hash = .ok key)
      (stored : s.idem.lookup key = some (text, result))
      (h : s.handle setup request = (s, .ok (respond (field request "id") (.ok result))))
  | ran (key : Key) (t : Server) (result : Value) (hkey : op.key.hash = .ok key)
      (free : s.idem.lookup key = none)
      (h : s.handle setup request = (t, .ok (respond (field request "id") (.ok result))))
      (idem : t.idem = s.idem ++ [(key, (Value.dict op.rest).dumps, result)])
      (tasks : t.tasks.length = s.tasks.length + 1)
      (proposals : t.proposals.length =
        s.proposals.length + if op.handler = .irPropose then 1 else 0)

theorem outcome_of_operation (setup : Setup) (s : Server) (hop : AsksFor request op)
    (hdotted : op.method ∈ idempotentMethods) : OperationOutcome setup s request op := by
  have hhandle := handle_of_operation setup s hop hdotted
  cases htruthy : op.key.truthy with
  | false =>
    obtain ⟨e, hkeyless⟩ := idempotent_keyless setup s op.method op.handler htruthy
    rw [hkeyless] at hhandle
    exact .refused e hhandle
  | true =>
    cases hkey : op.key.hash with
    | error e =>
      refine .refused (.exception e) (hhandle.trans ?_)
      unfold Server.idempotent
      dsimp only
      rw [show (field op.params "idempotency_key").truthy = true from htruthy,
        show (field op.params "idempotency_key").hash = .error e from hkey]
      rfl
    | ok key =>
      cases hlookup : s.idem.lookup key with
      | some stored =>
        obtain ⟨text, result⟩ := stored
        rw [idempotent_stored htruthy hkey hlookup] at hhandle
        split_ifs at hhandle with hsame
        · exact .refused _ hhandle
        · exact .repeated key text result hkey hlookup hhandle
      | none =>
        unfold Server.idempotent at hhandle
        dsimp only at hhandle
        rw [show (field op.params "idempotency_key").truthy = true from htruthy,
          show (field op.params "idempotency_key").hash = .ok key from hkey] at hhandle
        simp only [Bool.not_true, Bool.false_eq_true, if_false, hlookup] at hhandle
        obtain ⟨e, hrun⟩ | ⟨t, result, hrun, hidem, htasks, hproposals⟩ :=
          run_of_creates s hop.creates op.params
        · rw [hrun] at hhandle
          exact .refused e hhandle
        · rw [hrun] at hhandle
          refine .ran key _ result hkey hlookup hhandle ?_ htasks hproposals
          show t.idem ++ _ = _
          rw [hidem]
          rfl

/-! ### The invariant -/

/-- The stored responses are those of the ledger. -/
structure LedgerInv (reader : Reader) (s : Server) (ledger : List Success) : Prop
    extends OncePerKey s ledger where
  idem : s.idem = ledger.map Success.stored
  json : ∀ success ∈ ledger, (Value.dict success.rest).Json reader

theorem json_of_field? {name : String} {value : Value} (h : JsonFields reader fields)
    (hvalue : field? fields name = some value) :
    value.Json reader := by
  induction fields with
  | nil => cases hvalue
  | cons entry fields ih =>
    obtain ⟨key, first⟩ := entry
    rw [JsonFields] at h
    unfold field? at hvalue ih
    rw [List.lookup_cons] at hvalue
    split at hvalue
    · rw [← Option.some.inj hvalue]
      exact h.1
    · exact ih h.2 hvalue

theorem jsonFields_filter {p : String × Value → Bool} (h : JsonFields reader fields) :
    JsonFields reader (fields.filter p) := by
  induction fields with
  | nil => exact h
  | cons entry fields ih =>
    obtain ⟨key, value⟩ := entry
    rw [JsonFields] at h
    rw [List.filter_cons]
    split_ifs
    · exact ⟨h.1, ih h.2⟩
    · exact ih h.2

/-- The params of a request of JSON. -/
theorem json_rest (hop : AsksFor request op) (h : (Value.dict request).Json reader) :
    (Value.dict op.rest).Json reader := by
  rw [Value.Json] at h
  have hparams : (Value.dict op.params).Json reader := by
    have hget := hop.isParams
    unfold field at hget
    cases hfield : field? request "params" with
    | none =>
      rw [hfield] at hget
      rw [← hget]
      exact ⟨List.nodup_nil, trivial⟩
    | some value =>
      have hvalue := json_of_field? h.2 hfield
      rw [hfield, Option.getD_some, Value.orElse] at hget
      split_ifs at hget with htruthy
      · rw [← hget]
        exact hvalue
      · rw [← hget]
        exact ⟨List.nodup_nil, trivial⟩
  rw [Value.Json] at hparams ⊢
  exact ⟨hparams.1.sublist (List.filter_sublist.map Prod.fst), jsonFields_filter hparams.2⟩

theorem LedgerInv.start (doc : Document) : LedgerInv reader { doc := doc } [] where
  keys := List.nodup_nil
  tasks := rfl
  proposals := rfl
  idem := rfl
  json success h := by cases h

/-- **What a guarded operation is answered.** -/
theorem LedgerInv.answersOnce (h : LedgerInv reader s ledger)
    (hguarded : Guarded reader (s, ledger) request) (hasked : operation? request = some op) :
    AnswersOnce setup s ledger request op := by
  have hop := asksFor hasked
  have hdotted := hguarded.dotted op hasked
  have hhandle := handle_of_operation setup s hop hdotted
  have hstored {success : Success} (hmem : success ∈ ledger) : s.idem.lookup success.key =
      some ((Value.dict success.rest).dumps, success.result) := by
    rw [h.idem]
    exact lookup_stored h.keys hmem
  constructor
  · intro htruthy
    obtain ⟨e, hkeyless⟩ := idempotent_keyless setup s op.method op.handler htruthy
    rw [hkeyless] at hhandle
    exact ⟨e, hhandle⟩
  · intro success hmem htruthy hkey _ hsame
    rw [idempotent_stored htruthy hkey (hstored hmem), if_neg] at hhandle
    · exact hhandle
    · rw [not_not, dumps_eq_write, hsame, ← dumps_eq_write]
      rfl
  · intro success hmem htruthy hkey hother
    have hdifferent : ¬SameParams success.rest op.rest := by
      intro hsame
      exact hother ⟨hguarded.sameMethod op hasked success hmem hkey hsame, hsame⟩
    rw [idempotent_stored htruthy hkey (hstored hmem), if_pos] at hhandle
    · exact ⟨_, rfl, hhandle⟩
    · intro hdumps
      exact hdifferent ((dumps_inj (h.json success hmem) (json_rest hop hguarded.json)).mp hdumps)
  · intro hnone
    cases outcome_of_operation setup s hop hdotted with
    | refused e houtcome => exact ⟨e, houtcome⟩
    | repeated _ _ result _ _ houtcome =>
      rw [houtcome] at hnone
      cases hnone
    | ran _ _ result _ _ houtcome =>
      rw [houtcome] at hnone
      cases hnone

theorem ledgerAfter_none (hasked : operation? request = none) :
    ledgerAfter setup s ledger request = ledger := by
  unfold ledgerAfter
  rw [hasked]

theorem ledgerAfter_refused {e : Raised} {t : Server}
    (h : s.handle setup request = (t, .ok (respond (field request "id") (.error e)))) :
    ledgerAfter setup s ledger request = ledger := by
  unfold ledgerAfter
  rw [h]
  cases e <;> cases operation? request <;> rfl

theorem ledgerAfter_result (hasked : operation? request = some op) (hkey : op.key.hash = .ok key)
    (h : s.handle setup request = (t, .ok (respond (field request "id") (.ok result)))) :
    ledgerAfter setup s ledger request =
      if ledger.any fun success => success.key = key then ledger
      else ledger ++ [{ key := key, method := op.method, rest := op.rest, result := result }] := by
  have hresult : resultOf (s.handle setup request).2 = some result := by
    rw [h]
    rfl
  unfold ledgerAfter
  rw [hresult, hasked]
  dsimp only
  rw [hkey]

/-- **A guarded request keeps the invariant.** -/
theorem LedgerInv.step (h : LedgerInv reader s ledger)
    (hguarded : Guarded reader (s, ledger) request) :
    LedgerInv reader (s.handle setup request).1 (ledgerAfter setup s ledger request) := by
  cases hasked : operation? request with
  | none =>
    have hsame := sameNumbers_handle setup s hasked
    rw [ledgerAfter_none hasked]
    exact
      { keys := h.keys
        tasks := hsame.tasks.trans h.tasks
        proposals := hsame.proposals.trans h.proposals
        idem := hsame.idem.trans h.idem
        json := h.json }
  | some op =>
    have hop := asksFor hasked
    cases outcome_of_operation setup s hop (hguarded.dotted op hasked) with
    | refused e houtcome =>
      rw [ledgerAfter_refused houtcome, houtcome]
      exact h
    | repeated key text result hkey hlookup houtcome =>
      obtain ⟨success, hmem, hsuccess⟩ := mem_of_lookup_stored (h.idem ▸ hlookup)
      rw [ledgerAfter_result hasked hkey houtcome, houtcome, if_pos]
      · exact h
      · exact List.any_eq_true.mpr ⟨success, hmem, decide_eq_true hsuccess⟩
    | ran key t result hkey hfree houtcome hidem htasks hproposals =>
      have hfresh := not_mem_of_lookup_stored (h.idem ▸ hfree)
      rw [ledgerAfter_result hasked hkey houtcome, houtcome, if_neg]
      · constructor
        · constructor
          · rw [List.map_append, List.map_singleton]
            exact h.keys.append (List.nodup_singleton _) (by simpa using hfresh)
          · rw [htasks, h.tasks, List.length_append, List.length_singleton]
          · rw [hproposals, h.proposals, List.countP_append, List.countP_singleton, hop.isHandler]
            simp
        · rw [hidem, h.idem, List.map_append]
          rfl
        · intro success hmem
          rcases List.mem_append.mp hmem with hmem | hmem
          · exact h.json success hmem
          · rw [List.mem_singleton.mp hmem]
            exact json_rest hop hguarded.json
      · intro hany
        obtain ⟨success, hmem, hsuccess⟩ := List.any_eq_true.mp hany
        exact hfresh (of_decide_eq_true hsuccess ▸ List.mem_map_of_mem hmem)

/-- **Idempotency.**  After every sequence of guarded requests, the handlers of `agent.dispatch` and
`ir.propose` ran to their end once for every key; the next request without a key is refused, a
repeat is answered with the first result, another request under a key of the ledger is a mismatch,
and one that fails changes nothing. -/
theorem idempotencyLaw_guarded (setup : Setup) (reader : Reader) :
    IdempotencyLaw setup (Guarded reader) := by
  intro doc s ledger hrun
  have h : LedgerInv reader (s, ledger).1 (s, ledger).2 := by
    apply hrun.invariant (I := fun state => LedgerInv reader state.1 state.2) _ (.start doc)
    intro state request state' hstate hguarded heq
    rw [← Option.some.inj heq]
    exact hstate.step hguarded
  exact ⟨h.toOncePerKey, fun request op hguarded hasked => h.answersOnce hguarded hasked⟩

/-! ### Another spelling -/

/-- A reader of JSON without floats. -/
def bareReader : Reader where
  float _ := none
  decode _ _ := none

/-- A dispatch without a key, by the name of the handler. -/
def spelledRequest : Fields :=
  rpc "agent_dispatch" [("role", .str "Coder"), ("objective", .str "add a step"),
    ("deadline_ms", .int 1000)]

/-- A handler is found by the name in which `_` stands for the dot, and then no key is asked for. -/
theorem not_idempotencyLaw :
    ¬ ∀ setup reader, IdempotencyLaw setup (JsonRequest reader) := by
  intro hlaw
  let start : Server := { doc := emptyDocument }
  let op := (operation? spelledRequest).get (by decide)
  have hasked : operation? spelledRequest = some op := (Option.some_get _).symm
  have hjson : (Value.dict spelledRequest).Json bareReader := by
    simp [spelledRequest, rpc, Value.Json, JsonFields, intDigitsLimit]
    decide
  have hanswers := (hlaw bareSetup bareReader emptyDocument start [] .refl).2 spelledRequest op hjson
    hasked
  obtain ⟨e, hrefused⟩ := hanswers.keyless (by decide)
  have htasks := congrArg (fun result => result.1.tasks.length) hrefused
  have hone : (start.handle bareSetup spelledRequest).1.tasks.length = 1 := by decide
  rw [hone] at htasks
  exact Nat.one_ne_zero htasks

end Lnpl.Protocol
