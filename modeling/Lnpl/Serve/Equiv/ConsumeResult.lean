import Lnpl.Interp.Equiv.Failures
import Lnpl.Serve.Equiv.Consume

/-!
# What the status of a consumed event says

`map_consume_result` takes the failures that have a kind for what they are, and guesses the others
by the effects of the failed step (`classified_iff_guessable`): a `DriverError` of a CacheAccess, an
EventEmit or an Assignment is answered with 422, and an unresolved reference of a RepositoryCall or
a NetworkCall with 503.
-/

namespace Lnpl.Serve

open Lnpl.Interp Lnpl.Lib

variable {δ ρ χ ν : Type}

/-! ### Kinds and guesses -/

section Status

variable {result : Result} {f : Failure} {t : Session ρ χ ν}

section

variable (hf : result.failure = some f)
include hf

/-- A failure without a kind is classified by the effects of its step. -/
theorem status_without_kind (hkind : f.kind = none) :
    consumeStatus (.ok result t) = if callsOut result.steps f.step then 503 else 422 := by
  show (mapConsumeResult result).1 = _
  unfold mapConsumeResult
  rw [hf]
  simp only [hkind, reduceCtorEq, if_false, or_self]
  split <;> rfl

theorem status_with_kind {kind : String} (hkind : f.kind = some kind)
    (hknown : kind = "write-conflict" ∨ kind ∈ ownKinds) :
    consumeStatus (.ok result t) = if kind = "deadline" ∨ kind = "write-conflict" then 503 else 422 := by
  show (mapConsumeResult result).1 = _
  unfold mapConsumeResult
  rw [hf]
  simp only [ownKinds, List.mem_cons, List.not_mem_nil, or_false] at hknown
  rcases hknown with rfl | rfl | rfl | rfl | rfl | rfl <;> simp [hkind]

/-- A failure that says what it comes from is classified unless it is guessed wrong. -/
theorem classified_iff_of_sound (hsound : f.Sound) :
    ((TransientFailure f → consumeStatus (.ok result t) = 503) ∧
      (¬TransientFailure f → consumeStatus (.ok result t) = 422)) ↔
      (f.kind = none → (f.cause.isSome ↔ callsOut result.steps f.step)) := by
  cases hkind : f.kind with
  | none =>
    have htransient : TransientFailure f ↔ f.cause.isSome := by
      unfold TransientFailure
      rw [hkind]
      cases hcause : f.cause with
      | none =>
        refine ⟨fun h => ?_, nofun⟩
        rcases h with h | ⟨_, h, _⟩
        · exact nomatch h
        · exact nomatch h
      | some cls =>
        have := hsound.cause cls hcause
        rw [hkind] at this
        refine ⟨fun _ => rfl, fun _ => Or.inr ⟨cls, rfl, ?_⟩⟩
        rintro rfl
        exact nomatch this
    rw [status_without_kind hf hkind, htransient]
    cases hcall : callsOut result.steps f.step with
    | true =>
      refine ⟨fun h _ => ⟨fun _ => rfl, fun _ => ?_⟩, fun h => ⟨fun _ => rfl, fun hno => ?_⟩⟩
      · by_contra hno
        exact absurd (h.2 hno) (by decide)
      · exact absurd ((h rfl).mpr rfl) hno
    | false =>
      refine ⟨fun h _ => ⟨fun hyes => ?_, nofun⟩, fun h => ⟨fun hyes => ?_, fun _ => rfl⟩⟩
      · exact absurd (h.1 hyes) (by decide)
      · exact absurd ((h rfl).mp hyes) (by decide)
  | some kind =>
    have hcases : (kind = "write-conflict" ∨ kind ∈ ownKinds) ∧
        (TransientFailure f ↔ kind = "deadline" ∨ kind = "write-conflict") := by
      unfold TransientFailure
      rw [hkind, Option.some.injEq]
      cases hcause : f.cause with
      | none =>
        have hown := hsound.own hcause kind hkind
        refine ⟨Or.inr hown, or_congr Iff.rfl ⟨fun ⟨_, h, _⟩ => ?_, ?_⟩⟩
        · exact nomatch h
        · rintro rfl
          exact absurd hown (by decide)
      | some cls =>
        have hcls := hkind.symm.trans (hsound.cause cls hcause)
        cases cls with
        | driverError => exact nomatch hcls
        | conflictError =>
          rw [Option.some.inj hcls]
          refine ⟨by decide, ⟨fun h => ?_, fun h => absurd h (by decide)⟩⟩
          rcases h with h | ⟨cls, h, hne⟩
          · exact absurd h (by decide)
          · exact absurd (Option.some.inj h).symm hne
        | writeConflictError =>
          rw [Option.some.inj hcls]
          refine ⟨by decide, fun _ => by decide, fun _ => Or.inr ?_⟩
          exact ⟨.writeConflictError, rfl, by decide⟩
    obtain ⟨hknown, htransient⟩ := hcases
    rw [status_with_kind hf hkind hknown, htransient]
    exact ⟨fun _ => nofun, fun _ => ⟨fun h => if_pos h, fun h => if_neg h⟩⟩

end

end Status

theorem errs_plainLt (a b : Json) : Errs Exc.Plain (Json.plainLt a b) := by
  unfold Json.plainLt
  split
  · exact Errs.ok _
  · split
    · exact Errs.ok _
    · exact Errs.error fun _ h => nomatch h

/-- The status of a failed run, and what its failure says. -/
def failedStatus (out : EStateM.Result Exc (Session ρ χ ν) Result) :
    Option (Nat × Option String × Option DriverErrorClass) :=
  match out with
  | .ok result _ => result.failure.map fun f => ((mapConsumeResult result).1, f.kind, f.cause)
  | .error _ _ => none

theorem Classified.failedStatus {out : EStateM.Result Exc (Session ρ χ ν) Result}
    (h : Classified out) {status : Nat} {cause : Option DriverErrorClass}
    (hstatus : failedStatus out = some (status, none, cause)) :
    (∀ cls, cause = some cls → cls ≠ .conflictError → status = 503) ∧
      (cause = none → status = 422) := by
  cases out with
  | error e t => exact nomatch hstatus
  | ok result t =>
    obtain ⟨f, hf, heq⟩ := Option.map_eq_some_iff.mp hstatus
    rw [Prod.mk.injEq, Prod.mk.injEq] at heq
    obtain ⟨hcode, hkind, hcause⟩ := heq
    rw [← hcode]
    refine ⟨fun cls hcls hne => (h f hf).1 (Or.inr ⟨cls, hcause.trans hcls, hne⟩), fun hnone => ?_⟩
    refine (h f hf).2 fun htransient => ?_
    rcases htransient with ht | ⟨cls, ht, -⟩
    · exact nomatch hkind.symm.trans ht
    · exact nomatch hnone.symm.trans (hcause.symm.trans ht)

/-- A workflow of one step. -/
def oneStep (effect : Effect) : Workflow where
  id := "w"
  name := "w"
  body := [.step ⟨"w.step.1", "s", [effect]⟩]
  constraints := {}
  distinct := List.nodup_singleton _

/-- A driver whose outbox cannot be written. -/
def lockedOutbox : Repo Unit :=
  { Repo.silent [] with recordEmission := fun _ => throw (.driver .driverError "database is locked") }

/-- One effect over that driver, in a document that declares the event `e`. -/
def oneEffect (effect : Effect) : Runtime Unit Unit Unit :=
  { Runtime.plain (oneStep effect) lockedOutbox with
    doc := { Document.single (oneStep effect) with events := ["e"] } }

/-- Its run on an empty payload. -/
def oneRun (effect : Effect) : EStateM.Result Exc (Session Unit Unit Unit) Result :=
  runWorkflow (oneEffect effect) "w" ∅ (fun _ => "") (fun _ => []) .plain

theorem plainFaults_oneEffect (effect : Effect) : (oneEffect effect).PlainFaults where
  execute _ _ _ := Raises.pure _
  query _ := Raises.pure _
  queryPredicate _ h := nomatch (show none = some _ from h)
  persist _ _ _ := Raises.pure _
  recordEmission _ := Raises.throw fun _ h => nomatch h
  cacheGet _ _ := Raises.pure _
  cacheSet _ _ _ _ := Raises.pure _
  cacheInvalidate _ := Raises.pure _
  network _ _ := Raises.pure _
  lt a b := errs_plainLt a b
  le a b := Errs.map (errs_plainLt b a) not
  assignmentValue _ _ _ _ := Errs.ok _
  predicateValue _ _ := Errs.ok _
  aggregate _ _ _ := Errs.ok _
  validate _ _ _ := Errs.ok _

end Lnpl.Serve
