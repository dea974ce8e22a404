import Lnpl.Serve.Deliveries

/-!
# Distinct deliveries

The claim of a request is kept under its workflow and the key it brings, and under nothing else of
the request.  So an answer that is not a request's own comes from one that claims the same key
(`Inv`), and distinct deliveries are kept apart, in every run of all of them, exactly if no two of
them claim one key (`neverConflated_iff`).
-/

namespace Lnpl.Serve

open Lnpl.Lib
open Lnpl.Drivers.Idempotency (State Action Phase step Claim)

variable {ρ β : Type} {ttlMs : Int} {key : ρ → String × String}
  {s s' : Consumer ρ β} {a : Action (ρ × β) ρ} {r : ρ}

/-! ### The invariant -/

/-- Whatever a request is answered or refused with comes from a request that claims its key and
has been run. -/
structure Inv (key : ρ → String × String) (s : Consumer ρ β) : Prop where
  owner : ∀ k r, s.owner k = some r → key r = k
  stored : ∀ k c, s.table k = some c → c.status = .done →
    ∃ r b, c.body = some (r, b) ∧ key r = k ∧ Ran s r
  refused : ∀ r h body, s.phase r = .refused (.done h body) →
    ∃ r' b, body = some (r', b) ∧ key r' = key r ∧ Ran s r'

theorem inv_init (clock : Int) : Inv key (State.init (fun _ => none) clock : Consumer ρ β) where
  owner _ _ h := nomatch h
  stored _ _ h := nomatch h
  refused _ _ _ h := nomatch h

variable [DecidableEq ρ]

variable {p : Phase (ρ × β)} {r' : ρ}

/-- The phase of one request changes, and it has been run if it had been. -/
theorem ran_update {f : ρ → Phase (ρ × β)} (hp : RanIn (f r) → RanIn p) (h : RanIn (f r')) :
    RanIn (Function.update f r p r') := by
  by_cases heq : r' = r
  · subst heq
    rw [Function.update_self]
    exact hp h
  · rw [Function.update_of_ne heq]
    exact h

/-- One request moves on, and the table changes under its key alone. -/
theorem Inv.move (h : Inv key s) {T : _} {o : _} {clock : Int} (hran : RanIn (s.phase r) → RanIn p)
    (howner : ∀ k r', o k = some r' → s.owner k = some r' ∨ key r' = k)
    (hT : ∀ k c, T k = some c → c.status = .done →
      s.table k = some c ∨ ∃ b, c.body = some (r, b) ∧ key r = k ∧ RanIn p)
    (hp : ∀ answer body, p = .refused (.done answer body) →
      ∃ r' b, body = some (r', b) ∧ key r' = key r ∧ Ran s r') :
    Inv key ⟨T, o, clock, Function.update s.phase r p⟩ where
  owner k r' ho := (howner k r' ho).elim (h.owner k r') id
  stored k c hc hdone := by
    rcases hT k c hc hdone with hold | ⟨b, hbody, hkey, hnew⟩
    · obtain ⟨r', b, hbody, hkey, hr'⟩ := h.stored k c hold hdone
      exact ⟨r', b, hbody, hkey, ran_update hran hr'⟩
    · refine ⟨r, b, hbody, hkey, ?_⟩
      show RanIn (Function.update s.phase r p r)
      rw [Function.update_self]
      exact hnew
  refused r' answer body hr' := by
    have hold : ∃ r'' b, body = some (r'', b) ∧ key r'' = key r' ∧ Ran s r'' := by
      by_cases heq : r' = r
      · subst heq
        refine hp answer body ?_
        rw [← hr']
        exact (Function.update_self r' p s.phase).symm
      · refine h.refused r' answer body ?_
        rw [← hr']
        exact (Function.update_of_ne heq p s.phase).symm
    obtain ⟨r'', b, hbody, hkey, hr''⟩ := hold
    exact ⟨r'', b, hbody, hkey, ran_update hran hr''⟩

/-- A request moves on that has not been run; the table stays. -/
theorem Inv.turn (h : Inv key s) (hr : ¬RanIn (s.phase r))
    (hp : ∀ answer body, p = .refused (.done answer body) →
      ∃ r' b, body = some (r', b) ∧ key r' = key r ∧ Ran s r') :
    Inv key { s with phase := Function.update s.phase r p } :=
  h.move (fun hran => absurd hran hr) (fun _ _ => Or.inl) (fun _ _ hc _ => Or.inl hc) hp

/-- The row under a key goes. -/
theorem Inv.remove (h : Inv key s) (k : String × String) (hran : RanIn (s.phase r) → RanIn p)
    (hp : ∀ answer body, p ≠ .refused (.done answer body)) :
    Inv key ⟨Drivers.Idempotency.deleteIdempotency s.table k, Function.update s.owner k none, s.clock,
      Function.update s.phase r p⟩ := by
  refine h.move hran (fun k' r' ho => Or.inl ?_) (fun k' c hc _ => Or.inl ?_)
    fun answer body heq => absurd heq (hp answer body)
  · by_cases hk : k' = k
    · rw [hk, Function.update_self] at ho
      exact nomatch ho
    · rwa [Function.update_of_ne hk] at ho
  · unfold Drivers.Idempotency.deleteIdempotency at hc
    by_cases hk : k' = k
    · rw [hk, Function.update_self] at hc
      exact nomatch hc
    · rwa [Function.update_of_ne hk] at hc

/-- **Step lemma.** -/
theorem inv_step (h : Inv key s) (hsigned : Signed a) (hstep : step ttlMs key s a = some s') :
    Inv key s' := by
  cases a with
  | tick d =>
    obtain rfl := Option.some.inj hstep
    exact ⟨h.owner, h.stored, h.refused⟩
  | arrive r =>
    simp only [step] at hstep
    split at hstep
    · next hr =>
      obtain rfl := Option.some.inj hstep
      exact h.turn (by rw [hr]; exact id) nofun
    · cases hstep
  | select r =>
    simp only [step] at hstep
    split at hstep
    · next now hr =>
      have hno : ¬RanIn (s.phase r) := by
        rw [hr]
        exact id
      split at hstep
      · obtain rfl := Option.some.inj hstep
        exact h.turn hno nofun
      · next c hc =>
        obtain rfl := Option.some.inj hstep
        refine h.turn hno fun answer body heq => ?_
        -- the row that is answered is one that was stored
        split at heq
        · unfold Claim.answer at heq
          split at heq
          · cases heq
          · next hdone =>
            cases heq
            exact h.stored _ c hc hdone
        · cases heq
    · cases hstep
  | delete r =>
    simp only [step] at hstep
    split at hstep
    · next now hr =>
      obtain rfl := Option.some.inj hstep
      exact h.remove (key r) (by rw [hr]; exact id) nofun
    · cases hstep
  | insert r =>
    simp only [step] at hstep
    split at hstep
    · next now hr =>
      have hno : ¬RanIn (s.phase r) := by
        rw [hr]
        exact id
      split at hstep
      · next T hT =>
        obtain rfl := Option.some.inj hstep
        refine h.move (fun _ => trivial) (fun k r' ho => ?_) (fun k c hc hdone => Or.inl ?_) nofun
        · by_cases hk : k = key r
          · rw [hk, Function.update_self] at ho
            exact Or.inr (by rw [hk, Option.some.inj ho])
          · rw [Function.update_of_ne hk] at ho
            exact Or.inl ho
        · unfold Drivers.Idempotency.insertInProgress at hT
          split at hT
          · cases hT
          · obtain rfl := Option.some.inj hT
            by_cases hk : k = key r
            · rw [hk, Function.update_self] at hc
              obtain rfl := Option.some.inj hc
              cases hdone
            · rwa [Function.update_of_ne hk] at hc
      · obtain rfl := Option.some.inj hstep
        exact h.turn hno nofun
    · cases hstep
  | finish r httpStatus body =>
    simp only [step] at hstep
    split at hstep
    · next now hr =>
      obtain rfl := Option.some.inj hstep
      refine h.move (fun _ => trivial) (fun _ _ => Or.inl) (fun k c hc hdone => ?_) nofun
      unfold Drivers.Idempotency.updateDone at hc
      by_cases hk : k = key r
      · rw [hk, Function.update_self, Option.map_eq_some_iff] at hc
        obtain ⟨c', hc', rfl⟩ := hc
        have hsigned : body.1 = r := hsigned
        exact Or.inr ⟨body.2, by rw [← hsigned], hk.symm, trivial⟩
      · rw [Function.update_of_ne hk] at hc
        exact Or.inl hc
    · cases hstep
  | release r =>
    simp only [step] at hstep
    split at hstep
    · next now hr =>
      obtain rfl := Option.some.inj hstep
      exact h.remove (key r) (fun _ => trivial) nofun
    · cases hstep

theorem inv_of_reaches {clock : Int}
    (hrun : Reaches (step ttlMs key) (fun _ => Signed) (State.init (fun _ => none) clock) s) :
    Inv key s :=
  hrun.invariant inv_step (inv_init clock)

/-- An answer that is not the request's own comes from one with its key. -/
theorem Inv.answeredFrom (h : Inv key s) (hstep : step ttlMs key s a = some s') (hsigned : Signed a)
    (hans : AnsweredFrom key s a s' r r') : key r = key r' := by
  rcases hans.2 with ⟨-, howner⟩ | ⟨answer, b, hdone⟩
  · exact (h.owner _ _ howner).symm
  · obtain ⟨r'', b', hbody, hkey, -⟩ := (inv_step h hsigned hstep).refused _ _ _ hdone
    cases hbody
    exact hkey.symm

/-! ### Requests that claim one key -/

variable {σ : Type} {source : σ → String} {sender : ρ → Sender σ}

theorem Request.differ_irrefl (request : Request) : ¬request.differ request := by
  cases request with
  | workflow name key => exact id
  | event route envelope => exact fun h => h.elim (absurd rfl) (absurd rfl)

theorem Sender.apart_irrefl (x : Sender σ) : ¬x.Apart source x := fun h =>
  h.elim (Request.differ_irrefl _) (absurd rfl)

/-- Two requests find their key free, and the second to insert its row is refused. -/
theorem exists_refused (β : Type) (ttlMs : Int) (key : ρ → String × String) (clock : Int) {r : ρ}
    (hne : r ≠ r') (hkey : key r = key r') :
    ∃ s s' : Consumer ρ β, Reaches (step ttlMs key) (fun _ => Signed)
      (State.init (fun _ => none) clock) s ∧ step ttlMs key s (.insert r) = some s' ∧
      AnsweredFrom key s (.insert r) s' r r' := by
  have hrun : ∃ s : Consumer ρ β, exec (step ttlMs key) (State.init (fun _ => none) clock)
      [.arrive r, .arrive r', .select r, .select r', .insert r'] = some s ∧
      s.phase r = .clear clock ∧ (s.table (key r)).isSome ∧ s.owner (key r) = some r' := by
    simp [exec, step, State.init, Drivers.Idempotency.selectIdempotency,
      Drivers.Idempotency.insertInProgress, Function.update_of_ne, hne, hne.symm, hkey]
  obtain ⟨s, hexec, hphase, htable, howner⟩ := hrun
  obtain ⟨c, hc⟩ := Option.isSome_iff_exists.mp htable
  -- the row of `r'` is there: the INSERT of `r` fails
  refine ⟨s, { s with phase := Function.update s.phase r (.refused .inProgress) },
    reaches_of_exec_all ?_ hexec, ?_, Or.inr rfl, Or.inl ⟨?_, howner⟩⟩
  · intro a ha _
    simp only [List.mem_cons, List.not_mem_nil, or_false] at ha
    rcases ha with rfl | rfl | rfl | rfl | rfl <;> trivial
  · simp only [step, hphase, Drivers.Idempotency.insertInProgress, hc]
  · exact Function.update_self r _ s.phase

/-- **Distinct deliveries.**  They are kept apart in every run of all requests, whatever the TTL, the
outcomes and the order of the statements, if and only if no two that claim one key are distinct. -/
theorem keptApart_iff (β : Type) (ttlMs clock : Int) (source : σ → String) (sender : ρ → Sender σ) :
    KeptApart β ttlMs clock source sender ↔
      ∀ r r', (sender r).claimKey source = (sender r').claimKey source →
        ¬(sender r).Apart source (sender r') := by
  constructor
  · intro hall r r' hkey hapart
    have hne : r ≠ r' := by
      rintro rfl
      exact Sender.apart_irrefl _ hapart
    obtain ⟨s, s', hrun, hstep, hans⟩ := exists_refused β ttlMs
      (fun r => (sender r).claimKey source) clock hne hkey
    exact (hall s s' (.insert r) hrun trivial hstep).1 r r' hans hapart
  · intro hkeys s s' a hrun hsigned hstep
    have hinv := inv_of_reaches hrun
    refine ⟨fun r r' hans => hkeys r r' (hinv.answeredFrom hstep hsigned hans), fun r e he h200 => ?_⟩
    rcases h200 with ⟨now, hfinished⟩ | ⟨body, hrefused⟩
    · refine ⟨r, he, ?_⟩
      unfold Ran
      rw [hfinished]
      trivial
    · obtain ⟨r', b, -, hkey, hran⟩ := (inv_step hinv hsigned hstep).refused r _ _ hrefused
      have hsame := hkeys r' r hkey
      refine ⟨r', ?_, hran⟩
      by_contra hne
      refine hsame (Or.inr fun heq => hne ?_)
      rw [heq, he]

/-! ### Two producers -/

/-- Two stores with one emission each, for one route. -/
def twoProducers (store : Fin 2) : Sender (Fin 2) :=
  .relay ⟨store, 1⟩ "OrderPlaced" ⟨"order-placed", "workflow.TakeOrder"⟩

/-- The sources of the two stores. -/
def twoSources (store : Fin 2) : String := if store.val = 0 then "Orders" else "Returns"

/-- **Two producers.**  Both number their outbox from 1, and the consumer keeps their first
emissions under one key. -/
theorem twoProducers_not_keptApart : ¬KeptApart Unit 10 0 twoSources twoProducers := by
  intro hall
  obtain ⟨s, s', hrun, hstep, hans⟩ := exists_refused Unit 10
    (fun r => (twoProducers r).claimKey twoSources) 0
    (show (0 : Fin 2) ≠ 1 by decide) rfl
  refine (hall s s' (.insert 0) hrun trivial hstep).1 0 1 hans (Or.inr ?_)
  decide

end Lnpl.Serve
