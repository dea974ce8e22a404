import Lnpl.Interp.Equiv.CachedReads
import Lnpl.Serve.Consume
import Lnpl.Serve.Equiv.Connection

/-!
# Deliveries of one event

What a delivery leaves in the store, through every exit of its run and of the route, whatever the
engine answers (`settles_deliver`): an answer of 503 has committed nothing, and an outcome or a
committed write has a claim that names it.  Over any sequence of deliveries
(`neverReapplied_of_tracks`) this needs that no run is left whose SQL transaction the driver has lost
sight of (`Tracks`): `commit()` and `rollback()` clear their flags also when the engine has failed
and the transaction is open, and the release of the claim then commits it (`deliver_of_lost`).
-/

namespace Lnpl.Serve

open Lnpl.Interp Lnpl.Lib Lnpl.Drivers.Idempotency

variable {δ β χ ν α : Type}

/-! ### The statements of a claim -/

namespace Connection

variable {db db' : Database δ β} {key : String × String} {nowMs ttlMs : Int}

/-- A statement has been executed outside a transaction, and not been committed. -/
structure Pending (db db' : Database δ β) (c : Connection δ β) : Prop where
  committed : c.committed = db
  view : c.view = some db'
  inTransaction : c.inTransaction = false
  sqlTransactionOpen : c.sqlTransactionOpen = false

theorem triple_statement_idle {f : Database δ β → Except Exc (α × Database δ β)} {a : α}
    (hf : f db = .ok (a, db')) :
    Triple (Idle db) (statement f) (fun x c => x = a ∧ Pending db db' c) fun e c =>
      e = sqliteError ∧ c.committed = db := by
  refine Triple.bind (triple_nextAnswer fun _ _ h => ⟨h.1, h.2, h.3, h.4⟩) fun answer => ?_
  cases answer with
  | done =>
    refine Triple.bind (Q := fun c c' => c.visible = db ∧ Idle db c') (Triple.get fun c h => ?_)
      fun c => Triple.assume fun hc => ?_
    · exact ⟨by rw [visible, h.view, Option.getD_none, h.committed], h⟩
    dsimp only
    rw [hc, hf]
    refine Triple.bind (Q := fun _ => Pending db db) (Triple.modify fun c h => ?_) fun _ => ?_
    · exact ⟨h.1, rfl, h.3, h.4⟩
    refine Triple.bind (Q := fun p c => p = (a, db') ∧ Pending db db c)
      (Triple.pure fun c h => ⟨rfl, h⟩) fun p => Triple.assume fun hp => ?_
    rw [hp]
    exact Triple.bind (Q := fun _ => Pending db db') (Triple.modify fun c h => ⟨h.1, rfl, h.3, h.4⟩)
      fun _ => Triple.pure fun c h => ⟨rfl, h⟩
  | fails =>
    exact Triple.bind (Q := fun _ c => c.committed = db) (Triple.modify fun _ h => h.committed)
      fun _ => Triple.throw fun _ h => ⟨rfl, h⟩
  | failsRolledBack =>
    exact Triple.bind (Q := fun _ c => c.committed = db) (Triple.modify fun _ h => h.committed)
      fun _ => Triple.throw fun _ h => ⟨rfl, h⟩

theorem triple_engineCommit_pending :
    Triple (Pending db db') engineCommit (fun _ => Idle db') fun e c =>
      e = sqliteError ∧ c.committed = db := by
  refine Triple.bind (Q := fun c c' => c = c' ∧ Pending db db' c') (Triple.get fun _ h => ⟨rfl, h⟩)
    fun c => ?_
  cases hview : c.view with
  | none =>
    refine Triple.pure fun c' h => ?_
    rw [h.1, h.2.view] at hview
    exact nomatch hview
  | some v =>
    refine Triple.bind (Q := fun _ c => v = db' ∧ Pending db db' c) ?_ fun answer =>
      Triple.assume fun hv => ?_
    · refine (triple_nextAnswer fun _ _ h => ?_).mono ?_ (fun _ _ => id) fun _ _ => id
      · exact ⟨h.1, h.2.1, h.2.2, h.2.3, h.2.4⟩
      · intro c' h
        rw [h.1, h.2.view] at hview
        exact ⟨(Option.some.inj hview).symm, h.2⟩
    cases answer with
    | done => exact Triple.modify fun c h => ⟨hv, rfl, h.3, h.4⟩
    | fails => exact Triple.throw fun _ h => ⟨rfl, h.committed⟩
    | failsRolledBack =>
      exact Triple.bind (Q := fun _ c => c.committed = db) (Triple.modify fun _ h => h.committed)
        fun _ => Triple.throw fun _ h => ⟨rfl, h⟩

/-- A statement and its COMMIT, on a connection without a transaction. -/
theorem triple_autocommit {f : Database δ β → Except Exc (Unit × Database δ β)} {message : String}
    (hf : f db = .ok ((), db')) :
    Triple (Idle db) (orDriverError message do statement f; engineCommit) (fun _ => Idle db')
      fun _ c => c.committed = db := by
  refine triple_orDriverError (Triple.bind (Q := fun _ => Pending db db') ?_ fun _ => ?_)
  · exact (triple_statement_idle hf).mono (fun _ => id) (fun _ _ => And.right) fun _ _ => And.right
  · exact triple_engineCommit_pending.mono (fun _ => id) (fun _ _ => id) fun _ _ => And.right

/-- The store in which the key has been claimed. -/
def claimed (db : Database δ β) (key : String × String) (nowMs : Int) : Database δ β :=
  { db with claims := Function.update db.claims key (some ⟨.inProgress, none, none, nowMs⟩) }

/-- The store without the claim of a key. -/
def unclaimed (db : Database δ β) (key : String × String) : Database δ β :=
  { db with claims := deleteIdempotency db.claims key }

theorem triple_claim (h : db.claims key = none) :
    Triple (Idle db) (claim key nowMs) (fun a c => a = .started ∧ Idle (claimed db key nowMs) c)
      fun _ c => c.committed = db := by
  refine Triple.tryCatch (E := fun e c => e = sqliteError ∧ c.committed = db) ?_ fun e => ?_
  · have hinsert : insertInProgress db.claims key nowMs = some (claimed db key nowMs).claims := by
      unfold insertInProgress
      rw [h]
      rfl
    refine Triple.bind (Q := fun _ => Pending db (claimed db key nowMs)) ?_ fun _ => ?_
    · refine (triple_statement_idle (a := ()) ?_).mono (fun _ => id) (fun _ _ => And.right)
        fun _ _ => id
      rw [hinsert]
      rfl
    · exact Triple.bind (Q := fun _ => Idle (claimed db key nowMs)) triple_engineCommit_pending
        fun _ => Triple.pure fun _ h => ⟨rfl, h⟩
  · refine Triple.assume fun he => ?_
    rw [he, if_neg (by decide), if_pos rfl]
    exact Triple.throw fun _ => id

/-- A SELECT without a transaction, where `x` is what the engine answers. -/
theorem triple_select_idle (f : Database δ β → α) (x : EngineAnswer) :
    Triple (fun c => c.answers.headD .done = x ∧ Idle db c) (select f)
      (fun a c => x = .done ∧ a = f db ∧ Idle db c) fun _ c => x ≠ .done ∧ c.committed = db := by
  refine Triple.bind (Q := fun answer c => answer = x ∧ Idle db c)
    (fun c h => ⟨h.1, h.2.1, h.2.2, h.2.3, h.2.4⟩) fun answer => Triple.assume fun hx => ?_
  rw [← hx]
  cases answer with
  | done =>
    refine Triple.bind (Q := fun c c' => c.visible = db ∧ Idle db c') (Triple.get fun c h => ?_)
      fun c => Triple.pure fun c' h => ⟨rfl, by rw [h.1], h.2⟩
    exact ⟨by rw [visible, h.view, Option.getD_none, h.committed], h⟩
  | fails => exact Triple.throw fun _ h => ⟨nofun, h.committed⟩
  | failsRolledBack =>
    exact Triple.bind (Q := fun _ c => c.committed = db) (Triple.modify fun _ h => h.committed)
      fun _ => Triple.throw fun _ h => ⟨nofun, h⟩

/-- The SELECT of `idempotency_begin`. -/
theorem triple_selectClaim (x : EngineAnswer) :
    Triple (fun c => c.answers.headD .done = x ∧ Idle db c)
      (orDriverError "cannot read idempotency key" (select fun db => selectIdempotency db.claims key))
      (fun row c => row = db.claims key ∧ x = .done ∧ Idle db c)
      fun _ c => x ≠ .done ∧ c.committed = db :=
  triple_orDriverError ((triple_select_idle _ x).mono (fun _ => id)
    (fun _ _ h => ⟨h.2.1, h.1, h.2.2⟩) fun _ _ => id)

/-- `idempotency_begin` on a key without a fresh claim starts it. -/
theorem triple_idempotencyBegin_stale
    (h : ∀ c, db.claims key = some c → c.fresh ttlMs nowMs = false) :
    Triple (Idle db) (idempotencyBegin key nowMs ttlMs)
      (fun a c => a = .started ∧ Idle (claimed db key nowMs) c)
      fun _ c => c.committed = db ∨ c.committed = unclaimed db key := by
  intro c₀ hc₀
  refine Triple.bind (Q := fun row c => row = db.claims key ∧ Idle db c) ?_ (fun row => ?_) c₀ hc₀
  · refine fun c hc => Ends.mono (triple_selectClaim _ c ⟨rfl, hc⟩) ?_ fun _ _ h => Or.inl h.2
    exact fun _ _ h => ⟨h.1, h.2.2⟩
  refine Triple.assume fun hrow => ?_
  cases row with
  | none =>
    exact (triple_claim hrow.symm).mono (fun _ => id) (fun _ _ => id) fun _ _ => Or.inl
  | some cl =>
    refine Triple.ite (fun hfresh => absurd hfresh ?_) fun _ => ?_
    · rw [h cl hrow.symm]
      exact Bool.false_ne_true
    refine Triple.bind (Q := fun _ => Idle (unclaimed db key)) ?_ fun _ => ?_
    · exact (triple_autocommit rfl).mono (fun _ => id) (fun _ _ => id) fun _ _ => Or.inl
    have hnone : (unclaimed db key).claims key = none := Function.update_self _ _ _
    have hclaimed : claimed (unclaimed db key) key nowMs = claimed db key nowMs := by
      unfold claimed unclaimed deleteIdempotency
      rw [Function.update_idem]
    rw [← hclaimed]
    exact (triple_claim hnone).mono (fun _ => id) (fun _ _ => id) fun _ _ => Or.inr

/-- `idempotency_begin` on a key with a fresh claim answers with it, where the engine does. -/
theorem triple_idempotencyBegin_fresh {cl : Claim β} (hcl : db.claims key = some cl)
    (hfresh : cl.fresh ttlMs nowMs) (x : EngineAnswer) :
    Triple (fun c => c.answers.headD .done = x ∧ Idle db c) (idempotencyBegin key nowMs ttlMs)
      (fun a c => a = cl.answer ∧ x = .done ∧ Idle db c) fun _ c => x ≠ .done ∧ c.committed = db := by
  refine Triple.bind (triple_selectClaim x) fun row => Triple.assume fun hrow => ?_
  rw [hrow, hcl]
  refine Triple.ite (fun _ => Triple.pure fun _ h => ⟨rfl, h⟩) fun hstale => ?_
  exact absurd hfresh hstale

/-- `idempotency_finish` outside a transaction. -/
theorem triple_idempotencyFinish (httpStatus : Nat) (body : β) :
    Triple (Idle db) (idempotencyFinish key httpStatus body)
      (fun _ => Idle { db with claims := updateDone db.claims key httpStatus body })
      fun _ c => c.committed = db :=
  triple_autocommit rfl

/-- `idempotency_release` outside a transaction. -/
theorem triple_idempotencyRelease :
    Triple (Idle db) (idempotencyRelease key) (fun _ => Idle (unclaimed db key))
      fun _ c => c.committed = db :=
  triple_autocommit rfl

/-- `rollback()` outside a transaction. -/
theorem triple_rollback_idle :
    Triple (Idle db) (rollback : D δ β Unit) (fun _ => Idle db) fun _ _ => False := by
  refine Triple.bind (Q := fun c c' => c.sqlTransactionOpen = false ∧ Idle db c')
    (Triple.get fun c h => ⟨h.sqlTransactionOpen, h⟩) fun c => Triple.assume fun hc => ?_
  refine Triple.ite (fun hopen => absurd hopen ?_) fun _ => Triple.modify fun c h => ?_
  · rw [hc]
    exact Bool.false_ne_true
  · exact ⟨h.committed, h.view, rfl, rfl⟩

end Connection

open Connection

/-! ### The exits of the route -/

/-- The rows and the claims of other keys are as they were. -/
structure Untouched (key : String × String) (db db' : Database δ β) : Prop where
  data : db'.data = db.data
  elsewhere : ∀ k, k ≠ key → db'.claims k = db.claims k

theorem untouched_refl (key : String × String) (db : Database δ β) : Untouched key db db :=
  ⟨rfl, fun _ _ => rfl⟩

theorem Untouched.trans {key : String × String} {db₁ db₂ db₃ : Database δ β}
    (h : Untouched key db₁ db₂) (h' : Untouched key db₂ db₃) : Untouched key db₁ db₃ where
  data := h'.data.trans h.data
  elsewhere k hk := (h'.elsewhere k hk).trans (h.elsewhere k hk)

theorem untouched_claimed (key : String × String) (db : Database δ β) (nowMs : Int) :
    Untouched key db (claimed db key nowMs) where
  data := rfl
  elsewhere _ hk := Function.update_of_ne hk _ _

theorem untouched_unclaimed (key : String × String) (db : Database δ β) :
    Untouched key db (unclaimed db key) where
  data := rfl
  elsewhere _ hk := Function.update_of_ne hk _ _

theorem triple_repo_onRepo {K : Connection δ Body → Prop} {Q : α → Connection δ Body → Prop}
    {E : Exc → Connection δ Body → Prop} {m : D δ Body α} (h : Triple K m Q E) :
    Triple (OfRepo K) (onRepo m : R δ χ ν α) (fun a => OfRepo (Q a)) fun e => OfRepo (E e) :=
  Triple.zoom_ends fun s hs => h s.repo hs

section Exits

variable {rt : Runtime (Connection δ Body) χ ν} {d : Delivery} {db : Database δ Body}

theorem triple_releaseEventClaim :
    Triple (OfRepo (Idle db)) (releaseEventClaim d : R δ χ ν Unit)
      (fun _ s => Untouched d.key db s.repo.committed) fun _ s => s.repo.committed = db := by
  refine Triple.tryCatch (E := fun _ s => s.repo.committed = db) ?_ fun e => ?_
  · refine (triple_repo_onRepo triple_idempotencyRelease).mono (fun _ => id) (fun _ s h => ?_)
      fun _ _ => id
    rw [h.committed]
    exact untouched_unclaimed d.key db
  · have hkept : ∀ s : Exec (Connection δ Body) χ ν, s.repo.committed = db →
        Untouched d.key db s.repo.committed := by
      intro s hs
      rw [hs]
      exact untouched_refl d.key db
    cases e with
    | driver cls message => exact Triple.pure hkept
    | run e => exact Triple.throw fun _ => id
    | other cls => exact Triple.throw fun _ => id

/-- After an exception whose SQL transaction the driver knows of, nothing is committed. -/
theorem triple_afterEscape {methods : RowMethods δ} (hmethods : rt.repo = methods.repo) :
    Triple (OfRepo fun c => Idle db c ∨ InRun db c) (afterEscape rt d)
      (fun a s => a.status = 503 ∧ Untouched d.key db s.repo.committed)
      fun _ s => s.repo.committed = db := by
  unfold afterEscape
  rw [hmethods]
  have hrollback : Triple (fun c => Idle db c ∨ InRun db c) (rollback : D δ Body Unit)
      (fun _ => Idle db) fun _ c => c.committed = db := by
    intro c hc
    cases hc with
    | inl h => exact Ends.mono (triple_rollback_idle c h) (fun _ _ => id) fun _ _ => False.elim
    | inr h => exact Ends.mono (triple_rollback c h) (fun _ _ => id) fun _ _ h => h.committed
  refine Triple.bind (Q := fun rolledBack s =>
    if rolledBack then Idle db s.repo else s.repo.committed = db) ?_ fun rolledBack => ?_
  · refine Triple.tryCatch (E := fun _ s => s.repo.committed = db) ?_ fun e => ?_
    · exact Triple.bind (triple_repo_onRepo hrollback) fun _ => Triple.pure fun _ h => h
    · exact Triple.pure fun _ h => h
  · cases rolledBack with
    | true => exact Triple.bind triple_releaseEventClaim fun _ => Triple.pure fun _ h => ⟨rfl, h⟩
    | false =>
      refine Triple.pure fun s h => ⟨rfl, ?_⟩
      rw [show s.repo.committed = db from h]
      exact untouched_refl d.key db

/-- The store in which the outcome has been recorded. -/
def finished (db : Database δ Body) (key : String × String) (httpStatus : Nat) (body : Body) :
    Database δ Body :=
  { db with claims := updateDone db.claims key httpStatus body }

theorem consumeAnswer_body (d : Delivery) (result : Result) :
    ∃ body, (consumeAnswer d result).body = some body := by
  unfold consumeAnswer
  rcases mapConsumeResult result with ⟨status, none | code⟩
  · exact ⟨_, rfl⟩
  · exact ⟨_, rfl⟩

/-- A result that has not failed is answered with 200. -/
theorem consumeAnswer_completed {d : Delivery} {result : Result} (h : result.failure = none) :
    (consumeAnswer d result).status = 200 := by
  unfold consumeAnswer mapConsumeResult
  rw [h]

theorem triple_afterResult (result : Result) :
    Triple (OfRepo (Idle db)) (afterResult d result : R δ χ ν HttpAnswer)
      (fun a s => a = consumeAnswer d result ∧
        if a.status = 503 then Untouched d.key db s.repo.committed
        else ∃ body, a.body = some body ∧ s.repo.committed = finished db d.key a.status body)
      fun _ s => s.repo.committed = db := by
  obtain ⟨body, hbody⟩ := consumeAnswer_body d result
  unfold afterResult
  dsimp only
  rw [hbody]
  refine Triple.ite (fun h503 => ?_) fun h503 => ?_
  · refine Triple.bind triple_releaseEventClaim fun _ => Triple.pure fun s h => ⟨rfl, ?_⟩
    rw [if_pos h503]
    exact h
  · refine Triple.bind (triple_repo_onRepo (triple_idempotencyFinish _ body)) fun _ =>
      Triple.pure fun s h => ⟨rfl, ?_⟩
    rw [if_neg h503]
    exact ⟨body, hbody, h.committed⟩

/-- What the run of a delivery and what follows it leave of the store of its claim. -/
def LeftByRun (d : Delivery) (db : Database δ Body) (a : HttpAnswer) (db' : Database δ Body) : Prop :=
  if a.status = 503 then Untouched d.key db db'
  else ∃ data body, a.body = some body ∧ db' = finished { db with data := data } d.key a.status body

theorem ends_runDelivery {methods : RowMethods δ} (hmethods : rt.repo = methods.repo)
    (hcache : rt.cache.InvalidateFaults) {s : Exec (Connection δ Body) χ ν} (hs : Idle db s.repo)
    (htracks : ∀ e t, consumeRun rt d s = .error e t → t.run.exec.repo.view.isSome →
      t.run.exec.repo.sqlTransactionOpen) :
    Ends (fun a s' => LeftByRun d db a s'.repo.committed)
      (fun _ s' => ∃ data, s'.repo.committed = { db with data := data }) (runDelivery rt d s) := by
  have hbracket := bracket methods db
  rw [← hmethods] at hbracket
  have hrun := runWorkflow_closedBy { rt with caller := d.caller } hbracket hcache d.workflow
    (envelopeData d.envelope) d.fill d.schedules hs
  change Ends _ _ (consumeRun rt d s) at hrun
  unfold runDelivery
  cases h : consumeRun rt d s with
  | ok result t =>
    rw [h] at hrun
    obtain ⟨hclosed, hfailure⟩ := hrun
    unfold ClosedBy at hclosed
    split at hclosed
    · obtain ⟨data, hidle⟩ := hclosed
      refine Ends.mono (triple_afterResult result t.run.exec hidle) (fun a s' h => ?_) fun _ _ h =>
        ⟨data, h⟩
      have hfailed : result.failure = none := by
        rw [hfailure]
        exact Option.isNone_iff_eq_none.mp ‹_›
      have hstatus : a.status = 200 := by rw [h.1, consumeAnswer_completed hfailed]
      rw [hstatus, if_neg (by decide)] at h
      obtain ⟨-, body, hbody, hdb⟩ := h
      unfold LeftByRun
      rw [hstatus, if_neg (by decide)]
      exact ⟨data, body, hbody, hdb⟩
    · refine Ends.mono (triple_afterResult result t.run.exec hclosed) (fun a s' h => ?_) fun _ _ h =>
        ⟨db.data, h⟩
      unfold LeftByRun
      replace h := h.2
      split at h
      · rw [if_pos ‹_›]
        exact h
      · rw [if_neg ‹_›]
        exact ⟨db.data, h⟩
  | error e t =>
    rw [h] at hrun
    have hstate : Idle db t.run.exec.repo ∨ InRun db t.run.exec.repo := by
      rcases hrun with hidle | hopen | hunflagged | hidle
      · exact Or.inl hidle
      · exact Or.inr hopen
      · refine Or.inl ⟨hunflagged.committed, ?_, hunflagged.inTransaction, hunflagged.sqlTransactionOpen⟩
        cases hview : t.run.exec.repo.view with
        | none => rfl
        | some v =>
          have := htracks e t h (by rw [hview]; rfl)
          rw [hunflagged.sqlTransactionOpen] at this
          exact nomatch this
      · exact Or.inl hidle
    refine Ends.mono (triple_afterEscape hmethods t.run.exec hstate) (fun a s' h => ?_) fun _ _ h =>
      ⟨db.data, h⟩
    unfold LeftByRun
    rw [if_pos h.1]
    exact h.2

end Exits

/-! ### One delivery -/

section Deliver

variable {rt : Runtime (Connection δ Body) χ ν} {ttlMs : Int} {d : Delivery} {srv : Server δ χ ν}

theorem respondEventConsume_accepted (h : d.accepted rt.lang) :
    respondEventConsume rt ttlMs d = claimAndRun rt ttlMs d := by
  unfold Delivery.accepted at h
  rw [Bool.and_eq_true, Option.isNone_iff_eq_none, decide_eq_true_eq] at h
  unfold respondEventConsume
  rw [h.1]
  exact if_neg (Nat.not_lt.mpr h.2)

/-- An envelope that is not accepted is answered with 400. -/
theorem respondEventConsume_refused (rt : Runtime (Connection δ Body) χ ν) (ttlMs : Int)
    (h : d.accepted rt.lang = false) :
    ∃ code detail, respondEventConsume rt ttlMs d = pure (refuse 400 code detail) := by
  unfold respondEventConsume
  cases hvalid : validateCloudeventsEnvelope rt.lang d.envelope with
  | some problem => exact ⟨_, _, rfl⟩
  | none =>
    refine ⟨_, _, if_pos ?_⟩
    unfold Delivery.accepted at h
    rw [hvalid, Option.isNone_none, Bool.true_and, decide_eq_false_iff_not] at h
    exact Nat.not_le.mp h

theorem idle_arrive (d : Delivery) (srv : Server δ χ ν) : Idle srv.db (srv.arrive d).repo :=
  ⟨rfl, rfl, rfl, rfl⟩

/-- What a delivery leaves of the store. -/
structure Settles (lang : Lang) (d : Delivery) (db : Database δ Body) (answer : Option HttpAnswer)
    (db' : Database δ Body) : Prop where
  elsewhere : ∀ k, k ≠ d.key → db'.claims k = db.claims k
  retry : ∀ a, answer = some a → a.status = 503 → db'.data = db.data
  applied : db'.data ≠ db.data → ∃ c, db'.claims d.key = some c ∧ c.createdAt = d.nowMs
  concluded : ∀ a, answer = some a → a.status = 200 ∨ a.status = 422 → d.accepted lang →
    ∃ c, db'.claims d.key = some c ∧ c.answer = .done (some a.status) a.body

/-- What a fresh claim answers. -/
def replay (d : Delivery) (c : Claim Body) : HttpAnswer :=
  match c.answer with
  | .done status body => ⟨status.getD 0, body⟩
  | _ => refuse 409 "idempotency-in-progress" "a request with this CloudEvents id is already running"
    (some d.correlationId)

theorem answer_ne_started (c : Claim β) : c.answer ≠ .started := by
  unfold Claim.answer
  cases c.status with
  | inProgress => exact nofun
  | done => exact nofun

variable {c : Claim Body} {methods : RowMethods δ}

theorem ends_claimAndRun_fresh (rt : Runtime (Connection δ Body) χ ν)
    (hc : srv.db.claims d.key = some c) (hfresh : c.fresh ttlMs d.nowMs) :
    Ends (fun a s => a = replay d c ∧ d.answers.headD .done = .done ∧ s.repo.committed = srv.db)
      (fun _ s => d.answers.headD .done ≠ .done ∧ s.repo.committed = srv.db)
      (claimAndRun rt ttlMs d (srv.arrive d)) := by
  have hbegin := triple_repo_onRepo (χ := χ) (ν := ν)
    (triple_idempotencyBegin_fresh hc hfresh (d.answers.headD .done))
  refine Triple.bind hbegin (fun a => Triple.assume fun ha => ?_) (srv.arrive d)
    ⟨rfl, idle_arrive d srv⟩
  rw [ha]
  unfold replay
  cases hanswer : c.answer with
  | started => exact absurd hanswer (answer_ne_started c)
  | inProgress => exact Triple.pure fun _ h => ⟨rfl, h.1, h.2.committed⟩
  | done status body => exact Triple.pure fun _ h => ⟨rfl, h.1, h.2.committed⟩

theorem ends_claimAndRun_stale (hmethods : rt.repo = methods.repo)
    (hcache : rt.cache.InvalidateFaults) (haccepted : d.accepted rt.lang)
    (htracks : srv.Tracks rt ttlMs d)
    (hstale : ∀ c, srv.db.claims d.key = some c → c.fresh ttlMs d.nowMs = false) :
    Ends (fun a s => LeftByRun d (claimed srv.db d.key d.nowMs) a s.repo.committed)
      (fun _ s => Untouched d.key srv.db s.repo.committed ∨
        ∃ data, s.repo.committed = { claimed srv.db d.key d.nowMs with data := data })
      (claimAndRun rt ttlMs d (srv.arrive d)) := by
  have hbegin := triple_repo_onRepo (χ := χ) (ν := ν) (triple_idempotencyBegin_stale hstale)
    (srv.arrive d) (idle_arrive d srv)
  unfold claimAndRun
  cases h : (onRepo (idempotencyBegin d.key d.nowMs ttlMs) : R δ χ ν _) (srv.arrive d) with
  | error e s =>
    rw [h] at hbegin
    rw [EStateM.bind_error h]
    refine Or.inl ?_
    rcases hbegin with hdb | hdb
    · rw [hdb]
      exact untouched_refl _ _
    · rw [hdb]
      exact untouched_unclaimed _ _
  | ok a s =>
    rw [h] at hbegin
    obtain ⟨rfl, hidle⟩ := hbegin
    rw [EStateM.bind_ok h]
    exact Ends.mono (ends_runDelivery hmethods hcache hidle fun e t => htracks s e t ⟨haccepted, h⟩)
      (fun _ _ => id) fun _ _ => Or.inr

theorem not_starts_of_fresh (hc : srv.db.claims d.key = some c) (hfresh : c.fresh ttlMs d.nowMs)
    (s : Exec (Connection δ Body) χ ν) :
    ¬srv.Starts rt ttlMs d s := by
  intro h
  have hbegin := triple_repo_onRepo (χ := χ) (ν := ν)
    (triple_idempotencyBegin_fresh hc hfresh (d.answers.headD .done)) (srv.arrive d)
    ⟨rfl, idle_arrive d srv⟩
  rw [h.2] at hbegin
  exact answer_ne_started c hbegin.1.symm

/-- **A fresh claim**: the delivery is answered with it, and nothing is done. -/
theorem deliver_fresh (rt : Runtime (Connection δ Body) χ ν) (hc : srv.db.claims d.key = some c)
    (hfresh : c.fresh ttlMs d.nowMs) :
    (srv.deliver rt ttlMs d).db = srv.db ∧
      (d.accepted rt.lang → srv.answer rt ttlMs d =
        if d.answers.headD .done = .done then some (replay d c) else none) := by
  unfold Server.deliver Server.answer Server.outcome
  cases haccepted : d.accepted rt.lang with
  | false =>
    obtain ⟨code, detail, h⟩ := respondEventConsume_refused rt ttlMs haccepted
    rw [h]
    exact ⟨rfl, nofun⟩
  | true =>
    rw [respondEventConsume_accepted haccepted]
    have h := ends_claimAndRun_fresh rt hc hfresh
    revert h
    cases claimAndRun rt ttlMs d (srv.arrive d) with
    | ok a s =>
      intro h
      refine ⟨h.2.2, fun _ => ?_⟩
      rw [if_pos h.2.1, ← h.1]
    | error e s =>
      intro h
      refine ⟨h.2, fun _ => ?_⟩
      rw [if_neg h.1]

theorem replay_concluded (h : (replay d c).status = 200 ∨ (replay d c).status = 422) :
    c.answer = .done (some (replay d c).status) (replay d c).body := by
  revert h
  unfold replay
  cases c.answer with
  | started => exact fun h => absurd h (show ¬(409 = 200 ∨ 409 = 422) by decide)
  | inProgress => exact fun h => absurd h (show ¬(409 = 200 ∨ 409 = 422) by decide)
  | done status body =>
    cases status with
    | none => exact fun h => absurd h (show ¬(0 = 200 ∨ 0 = 422) by decide)
    | some status => exact fun _ => rfl

/-- The claim of a run whose outcome has been recorded. -/
theorem finished_claim (db : Database δ Body) (data : δ) (a : HttpAnswer) (body : Body) (key)
    (nowMs : Int) :
    (finished { claimed db key nowMs with data := data } key a.status body).claims key =
      some ⟨.done, some a.status, some body, nowMs⟩ := by
  have h : (claimed db key nowMs).claims key = some ⟨.inProgress, none, none, nowMs⟩ :=
    Function.update_self _ _ _
  refine Eq.trans (Function.update_self _ _ _) ?_
  show ((claimed db key nowMs).claims key).map _ = _
  rw [h]
  rfl

/-- A run whose driver does not lose sight of its transaction. -/
theorem settles_stale (hmethods : rt.repo = methods.repo) (hcache : rt.cache.InvalidateFaults)
    (haccepted : d.accepted rt.lang) (htracks : srv.Tracks rt ttlMs d)
    (hstale : ∀ c, srv.db.claims d.key = some c → c.fresh ttlMs d.nowMs = false) :
    Settles rt.lang d srv.db (srv.answer rt ttlMs d) (srv.deliver rt ttlMs d).db := by
  unfold Server.deliver Server.answer Server.outcome
  rw [respondEventConsume_accepted haccepted]
  have h := ends_claimAndRun_stale hmethods hcache haccepted htracks hstale
  have hclaimed := untouched_claimed d.key srv.db d.nowMs
  revert h
  cases claimAndRun rt ttlMs d (srv.arrive d) with
  | ok a s =>
    intro h
    unfold Ends LeftByRun at h
    dsimp only at h
    split at h
    next h503 =>
      have hkept := hclaimed.trans h
      refine ⟨hkept.elsewhere, fun _ _ _ => hkept.data, fun hdata => absurd hkept.data hdata, ?_⟩
      intro a' ha' hstatus
      rw [← Option.some.inj ha', h503] at hstatus
      exact absurd hstatus (by decide)
    next h503 =>
      obtain ⟨data, body, hbody, hdb⟩ := h
      have hclaim := finished_claim srv.db data a body d.key d.nowMs
      rw [← hdb] at hclaim
      refine ⟨fun k hk => ?_, ?_, fun _ => ⟨_, hclaim, rfl⟩, ?_⟩
      · show s.repo.committed.claims k = _
        rw [hdb]
        exact (Function.update_of_ne hk _ _).trans (hclaimed.elsewhere k hk)
      · intro a' ha' hstatus
        rw [← Option.some.inj ha'] at hstatus
        exact absurd hstatus h503
      · intro a' ha' _ _
        rw [← Option.some.inj ha', hbody]
        exact ⟨_, hclaim, rfl⟩
  | error e s =>
    intro h
    rcases h with hkept | ⟨data, hdb⟩
    · exact ⟨hkept.elsewhere, fun _ ha => (nomatch ha), fun hdata => absurd hkept.data hdata,
        fun _ ha => (nomatch ha)⟩
    · refine ⟨fun k hk => ?_, fun _ ha => (nomatch ha),
        fun _ => ⟨⟨.inProgress, none, none, d.nowMs⟩, ?_, rfl⟩, fun _ ha => (nomatch ha)⟩
      · show s.repo.committed.claims k = _
        rw [hdb]
        exact hclaimed.elsewhere k hk
      · show s.repo.committed.claims d.key = _
        rw [hdb]
        exact Function.update_self _ _ _

/-- **What a delivery settles**: 503 has committed nothing, a committed write has a claim, and an
outcome is the one that is recorded. -/
theorem settles_deliver (hmethods : rt.repo = methods.repo) (hcache : rt.cache.InvalidateFaults)
    (htracks : srv.Tracks rt ttlMs d) :
    Settles rt.lang d srv.db (srv.answer rt ttlMs d) (srv.deliver rt ttlMs d).db := by
  cases haccepted : d.accepted rt.lang with
  | false =>
    obtain ⟨code, detail, h⟩ := respondEventConsume_refused rt ttlMs haccepted
    unfold Server.deliver Server.answer Server.outcome
    rw [h]
    refine ⟨fun _ _ => rfl, fun _ _ _ => rfl, fun hdata => absurd rfl hdata, fun _ _ _ h => ?_⟩
    rw [haccepted] at h
    exact nomatch h
  | true =>
    by_cases hfresh : ∃ c, srv.db.claims d.key = some c ∧ c.fresh ttlMs d.nowMs
    · obtain ⟨c, hc, hfresh⟩ := hfresh
      obtain ⟨hdb, hanswer⟩ := deliver_fresh rt hc hfresh
      rw [hdb, hanswer haccepted]
      refine ⟨fun _ _ => rfl, fun _ _ _ => rfl, fun hdata => absurd rfl hdata, ?_⟩
      intro a ha hstatus _
      split at ha
      · rw [← Option.some.inj ha] at hstatus ⊢
        exact ⟨c, hc, replay_concluded hstatus⟩
      · exact nomatch ha
    · refine settles_stale hmethods hcache haccepted htracks fun c hc => ?_
      exact Bool.eq_false_iff.mpr fun h => hfresh ⟨c, hc, h⟩

end Deliver

/-! ### Any number of deliveries -/

section Deliveries

variable {rt : Runtime (Connection δ Body) χ ν} {ttlMs : Int} {srv : Server δ χ ν}
  {deliveries : Nat → Delivery}

/-- A claim is there until a delivery of its event comes after it has expired. -/
theorem claims_kept
    (hsettles : ∀ n, Settles rt.lang (deliveries n) (srv.before rt ttlMs deliveries n).db
      ((srv.before rt ttlMs deliveries n).answer rt ttlMs (deliveries n))
      (srv.before rt ttlMs deliveries (n + 1)).db)
    {m n : Nat} (hmn : m < n) {key : String × String} {c : Claim Body}
    (hc : (srv.before rt ttlMs deliveries (m + 1)).db.claims key = some c)
    (hfresh : ∀ j, m < j → j < n → (deliveries j).key = key → c.fresh ttlMs (deliveries j).nowMs) :
    (srv.before rt ttlMs deliveries n).db.claims key = some c := by
  induction hmn with
  | refl => exact hc
  | @step n hmn ih =>
    have hn := ih fun j hj hjn => hfresh j hj (by omega)
    by_cases hkey : (deliveries n).key = key
    · rw [← hkey] at hn
      have hdb := (deliver_fresh rt hn (hfresh n hmn (by omega) hkey)).1
      show ((srv.before rt ttlMs deliveries n).deliver rt ttlMs (deliveries n)).db.claims key = _
      rw [hdb, ← hkey]
      exact hn
    · rw [(hsettles n).elsewhere key fun h => hkey h.symm]
      exact hn

/-- **Deliveries that are answered one after another**: where no run is left whose SQL transaction the
driver has lost sight of, an answer of 503 has committed nothing, the deliveries of one event have the
writes of one run committed, and an outcome is answered again. -/
theorem neverReapplied_of_tracks {methods : RowMethods δ} (hmethods : rt.repo = methods.repo)
    (hcache : rt.cache.InvalidateFaults)
    (htracks : ∀ n, (srv.before rt ttlMs deliveries n).Tracks rt ttlMs (deliveries n)) :
    srv.NeverReapplied rt ttlMs deliveries := by
  have hsettles : ∀ n, Settles rt.lang (deliveries n) (srv.before rt ttlMs deliveries n).db
      ((srv.before rt ttlMs deliveries n).answer rt ttlMs (deliveries n))
      (srv.before rt ttlMs deliveries (n + 1)).db :=
    fun n => settles_deliver hmethods hcache (htracks n)
  -- the claim that the first of two deliveries has left meets the second
  have hmeets : ∀ m n c, m < n → (deliveries n).key = (deliveries m).key →
      srv.WithinTtl rt ttlMs deliveries m n →
      (srv.before rt ttlMs deliveries (m + 1)).db.claims (deliveries m).key = some c →
      (srv.before rt ttlMs deliveries n).db.claims (deliveries n).key = some c ∧
        c.fresh ttlMs (deliveries n).nowMs := by
    intro m n c hmn hkey hwithin hc
    refine ⟨?_, hwithin n c hmn (Nat.le_refl n) hkey hc⟩
    rw [hkey]
    exact claims_kept hsettles hmn hc fun j hj hjn hk => hwithin j c hj (by omega) hk hc
  refine ⟨fun n => (hsettles n).retry, fun n => (hsettles n).applied, ?_, ?_⟩
  · intro m n hmn hkey hwithin hdata
    obtain ⟨c, hc, -⟩ := (hsettles m).applied hdata
    obtain ⟨hn, hfresh⟩ := hmeets m n c hmn hkey hwithin hc
    exact congrArg Database.data (deliver_fresh rt hn hfresh).1
  · intro m n a hmn hkey hwithin hm haccepted ha hstatus
    obtain ⟨c, hc, hanswer⟩ := (hsettles m).concluded a ha hstatus hm
    obtain ⟨hn, hfresh⟩ := hmeets m n c hmn hkey hwithin hc
    obtain ⟨hdb, hreplay⟩ := deliver_fresh rt hn hfresh
    refine ⟨not_starts_of_fresh hn hfresh, hdb, ?_⟩
    rw [hreplay haccepted]
    unfold replay
    rw [hanswer]
    rfl

end Deliveries

/-! ### Orders that are made on events -/

/-- The row methods over tables. -/
def RowMethods.tables : RowMethods (Tables String String Dict) where
  read entity key rows := ((rows.get entity key).map fun row => Found.dict { data := row }).getD .none
  write entity op key rows :=
    match TableStore.execute entity op key { current := rows } with
    | .ok found store => .ok (found, store.current)
    | .error e _ => .error e
  query entity rows := (rows.itemsOf entity).map Prod.snd
  queryPredicate entity _ _ _ rows := (rows.itemsOf entity).map Prod.snd
  persist entity key row rows :=
    match TableStore.persist entity key row { current := rows } with
    | .ok row store => .ok (row, store.current)
    | .error e _ => .error e
  recordEmission _ rows := rows

/-- Orders in a SQLite store. -/
def orderServe : Runtime (Connection (Tables String String Dict) Body)
    (Std.ExtTreeMap String Stored) Unit where
  doc := orderDocument
  lang := .plain
  repo := RowMethods.tables.repo
  cache := .table []
  network := .silent

/-- An empty store. -/
def orderServer : Server (Tables String String Dict) (Std.ExtTreeMap String Stored) Unit where
  db := { data := .empty, claims := fun _ => none }
  cache := ∅
  network := ()

/-- An event that makes the order `o-1`; `answers` is what the engine answers. -/
def orderEvent (answers : List EngineAnswer) : Delivery where
  workflow := "make"
  envelope := Std.ExtTreeMap.ofList [("specversion", .str "1.0"), ("id", .str "e-1"),
    ("source", .str "shop"), ("type", .str "OrderPlaced"),
    ("data", .obj [("id", .str "o-1"), ("qty", .int 1)])] compare
  correlationId := "req-1"
  nowMs := 0
  fill := fun _ => ""
  answers := answers

/-- The event is delivered twice; all later deliveries are no CloudEvents. -/
def orderEvents (answers : List EngineAnswer) (n : Nat) : Delivery :=
  if n < 2 then orderEvent answers else { orderEvent answers with envelope := ∅ }

/-- The run of the delivery returns, if it is started. -/
def Server.runReturns (rt : Runtime (Connection δ Body) χ ν) (ttlMs : Int) (d : Delivery)
    (srv : Server δ χ ν) : Bool :=
  match (onRepo (Connection.idempotencyBegin d.key d.nowMs ttlMs) : R δ χ ν _) (srv.arrive d) with
  | .error _ _ => true
  | .ok _ s =>
    match consumeRun rt d s with
    | .ok _ _ => true
    | .error _ _ => false

/-- A run that returns leaves nothing open by an exception. -/
theorem tracks_of_runReturns {rt : Runtime (Connection δ Body) χ ν} {ttlMs : Int} {d : Delivery}
    {srv : Server δ χ ν} (h : srv.runReturns rt ttlMs d) : srv.Tracks rt ttlMs d := by
  intro s e t hstart hrun
  unfold Server.runReturns at h
  rw [hstart.2] at h
  dsimp only at h
  rw [hrun] at h
  exact nomatch h

/-- **One event, delivered twice**: the theorem at an order that is made once. -/
theorem neverReapplied_orderEvents :
    orderServer.NeverReapplied orderServe 1000 (orderEvents []) ∧
      ((orderServer.before orderServe 1000 (orderEvents []) 1).answer orderServe 1000
        (orderEvents [] 1)).map HttpAnswer.status = some 200 := by
  have hrepo : orderServe.repo = RowMethods.tables.repo := rfl
  refine ⟨neverReapplied_of_tracks hrepo ?_ ?_, by decide +kernel⟩
  · intro key m _
    exact Ends.mono ((Cache.table_honest []).invalidate key m) (fun _ _ _ => trivial) fun _ _ => And.left
  · intro n
    match n with
    | 0 => exact tracks_of_runReturns (by decide +kernel)
    | 1 =>
      have hfresh : ((orderServer.before orderServe 1000 (orderEvents []) 1).db.claims
          (orderEvents [] 1).key).any (fun c => c.fresh 1000 0) := by decide +kernel
      obtain ⟨c, hc, hfresh⟩ := (Option.any_eq_true _ _).mp hfresh
      exact fun s _ _ hstart => absurd hstart (not_starts_of_fresh hc hfresh s)
    | n + 2 =>
      have hrefused : (orderEvents [] (n + 2)).accepted orderServe.lang = false := by
        unfold orderEvents
        rw [if_neg (by omega)]
        decide +kernel
      exact fun s _ _ hstart => absurd hstart.1 (by rw [hrefused]; exact Bool.false_ne_true)

/-- **A commit that fails**: the driver closes its transaction and the engine does not, so that the
release of the claim commits the order that the answer of 503 says is to be made again. -/
theorem order_applied_and_retried :
    ¬orderServer.NeverReapplied orderServe 1000 (orderEvents (.replicate 7 .done ++ [.fails])) := by
  intro h
  have hrows : ((orderServer.before orderServe 1000 (orderEvents (.replicate 7 .done ++ [.fails]))
      1).db.data.itemsOf "entity.Order").length = 1 := by decide +kernel
  have hstatus : ((orderServer.before orderServe 1000 (orderEvents (.replicate 7 .done ++ [.fails]))
      0).answer orderServe 1000 (orderEvents (.replicate 7 .done ++ [.fails]) 0)).map
        HttpAnswer.status = some 503 := by decide +kernel
  obtain ⟨a, ha, hstatus⟩ := Option.map_eq_some_iff.mp hstatus
  rw [h.retry 0 a ha hstatus] at hrows
  exact absurd hrows (by decide)

end Lnpl.Serve
