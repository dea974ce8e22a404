import Lnpl.Interp.Reassignment
import Lnpl.Interp.Equiv.Attempts
import Lnpl.Interp.Equiv.Steps

/-!
# What a retried Assignment persists

A step of one Assignment that succeeds has evaluated its right side once an attempt, every time in
the scope that the attempts before it have left (`loop_succeeds`).

**`appliedOnce_iff`**: what it persists and leaves bound is the value from before its first attempt
exactly where evaluating again for every failed attempt gives that value back.
-/

namespace Lnpl.Interp

open Lnpl.Lib

variable {ρ χ ν : Type} {rt : Runtime ρ χ ν} {call : Call} {a : Assign}

/-! ### Scopes -/

/-- The right side of an Assignment sees the same in both. -/
structure SameScope (s t : Exec ρ χ ν) : Prop where
  bindings : t.bindings = s.bindings
  rowsets : t.rowsets = s.rowsets

theorem SameScope.refl (s : Exec ρ χ ν) : SameScope s s := ⟨rfl, rfl⟩

variable {s t : Exec ρ χ ν} {step : Step} {field : String}

theorem SameScope.value (h : SameScope s t) : a.value rt call t = a.value rt call s := by
  rw [Assign.value, Assign.value, Exec.scope, Exec.scope, h.bindings, h.rowsets]

theorem SameScope.entity (h : SameScope s t) : a.entity rt t = a.entity rt s := by
  rw [Assign.entity, Assign.entity, h.bindings]

theorem SameScope.failed (h : SameScope s t) (value : Json) :
    SameScope (a.failed rt value s) (a.failed rt value t) := by
  rw [Assign.failed, Assign.failed, h.bindings]
  cases s.bindings[a.binding]? with
  | none => exact h
  | some row =>
    dsimp only
    cases a.entityOf rt row with
    | none => exact h
    | some entity =>
      refine ⟨?_, h.rowsets⟩
      show t.bindings.insert _ _ = s.bindings.insert _ _
      rw [h.bindings]

theorem SameScope.reread (h : SameScope s t) (n : Nat) :
    a.reread rt call n t = a.reread rt call n s := by
  induction n generalizing s t with
  | zero => exact h.value
  | succ n ih =>
    rw [Assign.reread, Assign.reread, h.value]
    cases a.value rt call s with
    | none => rfl
    | some value => exact ih (h.failed value)

/-- A failed attempt leaves the entity of the row. -/
theorem entity_failed (value : Json) (s : Exec ρ χ ν) :
    a.entity rt (a.failed rt value s) = a.entity rt s := by
  rw [Assign.failed]
  cases hrow : s.bindings[a.binding]? with
  | none => rfl
  | some row =>
    dsimp only
    cases hentity : a.entityOf rt row with
    | none => rfl
    | some entity =>
      dsimp only
      rw [Assign.entity, Assign.entity, hrow, Exec.bind, Std.ExtTreeMap.getElem?_insert_self]
      rfl

/-! ### One attempt -/

/-- What an Assignment leaves that has persisted a value under an entity. -/
def Persists (rt : Runtime ρ χ ν) (a : Assign) (value : Json) (entity : String)
    (t : Exec ρ χ ν) : Prop :=
  ∃ (key : String) (row written : Stored) (r : ρ),
    rt.repo.persist entity key (stamped rt (rt.doc.entity? entity) (row.set a.field value)) r =
        .ok written t.repo ∧
      t.bindings[a.binding]?.map Row.toStored = some (unstamped rt (rt.doc.entity? entity) written)

/-- An Assignment that returns. -/
def Returned (rt : Runtime ρ χ ν) (call : Call) (a : Assign) (s t : Exec ρ χ ν) : Prop :=
  ∃ value entity, a.value rt call s = some value ∧ a.entity rt s = some entity ∧
    Persists rt a value entity t

/-- An Assignment that raises: it has no entity to write under, its right side has no value, or its
value is left in the scope. -/
inductive Raised (rt : Runtime ρ χ ν) (call : Call) (a : Assign) (s t : Exec ρ χ ν) : Prop
  | nameless (hs : a.entity rt s = none) (ht : a.entity rt t = none)
  | unread (hs : a.value rt call s = none) (ht : SameScope s t)
  | failed (value : Json) (hs : a.value rt call s = some value)
      (ht : SameScope (a.failed rt value s) t)

theorem insert_insert (m : Bindings) (name : String) (row row' : Row) :
    (m.insert name row).insert name row' = m.insert name row' := by
  apply Std.ExtTreeMap.ext_getElem?
  intro key
  simp only [Std.ExtTreeMap.getElem?_insert]
  by_cases hkey : compare name key = .eq
  · rw [if_pos hkey, if_pos hkey]
  · rw [if_neg hkey, if_neg hkey, if_neg hkey]

/-- The bindings and the RowSets of the execution are these. -/
def Holds (bindings : Bindings) (rowsets : RowSets) (t : Exec ρ χ ν) : Prop :=
  t.bindings = bindings ∧ t.rowsets = rowsets

/-- `persist` touches the driver alone. -/
theorem triple_persist_holds (bindings : Bindings) (rowsets : RowSets) (entity key : String)
    (row : Stored) :
    Triple (Holds bindings rowsets) (persist rt entity key row : M ρ χ ν Stored)
      (fun row' t => Holds bindings rowsets t ∧ ∃ written r,
        rt.repo.persist entity key (stamped rt (rt.doc.entity? entity) row) r = .ok written t.repo ∧
          row' = unstamped rt (rt.doc.entity? entity) written)
      fun _ => Holds bindings rowsets := by
  refine Triple.bind (Q := fun _ => Holds bindings rowsets) (Triple.modify fun _ => id) fun _ => ?_
  refine Triple.bind (Q := fun written t => Holds bindings rowsets t ∧ ∃ r, rt.repo.persist entity
    key (stamped rt (rt.doc.entity? entity) row) r = .ok written t.repo) ?_ fun written =>
      Triple.pure fun t ht => ⟨ht.1, written, ht.2.choose, ht.2.choose_spec, rfl⟩
  refine triple_translated (Triple.zoom fun t ht r hr => ?_)
  subst hr
  cases hpersist : rt.repo.persist entity key (stamped rt (rt.doc.entity? entity) row) t.repo with
  | ok written r => exact ⟨ht, t.repo, hpersist⟩
  | error e r => exact ht

/-- How an Assignment ends. -/
theorem triple_assignment (rt : Runtime ρ χ ν) (call : Call) (a : Assign) (s : Exec ρ χ ν) :
    Triple (fun t => t = s) (assignment rt call a.binding a.field a.expression a.aggFieldType)
      (fun _ t => Returned rt call a s t) fun _ t => Raised rt call a s t := by
  refine Triple.bind (Q := fun s' t => s' = s ∧ t = s) (Triple.get fun t ht => ⟨ht, ht⟩) fun s' =>
    Triple.assume fun hs' => ?_
  subst hs'
  cases hrow : s'.bindings[a.binding]? with
  | none =>
    have hentity : a.entity rt s' = none := by rw [Assign.entity, hrow]; rfl
    refine Triple.throw fun t ht => ?_
    rw [ht]
    exact .nameless hentity hentity
  | some row =>
    have hentity : a.entity rt s' = a.entityOf rt row := by rw [Assign.entity, hrow]; rfl
    refine Triple.bind (Q := fun value t => t = s' ∧ rt.lang.assignmentValue a.expression
      a.aggFieldType (s'.scope rt call) s'.rowsets = .ok value) (Triple.ofExcept ?_ ?_)
      fun value => ?_
    · exact fun value hvalue t ht => ⟨ht, hvalue⟩
    · intro e herror t ht
      rw [ht]
      refine .unread ?_ (.refl s')
      rw [Assign.value, herror]
    · refine Triple.mono (Triple.assume (P := fun t => t = s') fun hvalue => ?_)
        (fun t ht => ⟨ht.2, ht.1⟩) (fun _ _ => id) fun _ _ => id
      refine Triple.check (fun hnull t ht => ?_) fun hnull => ?_
      · rw [ht]
        refine .unread ?_ (.refl s')
        rw [Assign.value, hvalue]
        exact if_pos hnull
      have hsome : a.value rt call s' = some value := by
        rw [Assign.value, hvalue]
        exact if_neg hnull
      refine Triple.bind (Q := fun _ => Holds (s'.bindings.insert a.binding
        { row with toStored := row.toStored.set a.field value }) s'.rowsets)
        (Triple.modify fun t ht => ?_) fun _ => ?_
      · rw [ht]
        exact ⟨rfl, rfl⟩
      cases hof : (rt.doc.entityIdForBinding a.binding).orElse fun _ => row.entityId with
      | none =>
        refine Triple.throw fun t ht => .nameless (hentity.trans hof) ?_
        rw [Assign.entity, ht.1, Std.ExtTreeMap.getElem?_insert_self]
        exact hof
      | some entity =>
        -- the row as the `finally` leaves it, whether `persist` returns or raises
        have hfailed : a.failed rt value s' = s'.bind a.binding { row with
            toStored := unstamped rt (rt.doc.entity? entity)
              (row.toStored.set a.field value) } := by
          have hof' : a.entityOf rt row = some entity := hof
          simp only [Assign.failed, hrow, hof']
        refine Triple.bind (Q := fun _ => Holds (a.failed rt value s').bindings s'.rowsets)
          (Triple.modify fun t ht => ?_) fun _ => ?_
        · rw [hfailed]
          refine ⟨?_, ht.2⟩
          show t.bindings.insert _ _ = s'.bindings.insert _ _
          rw [ht.1, insert_insert]
        refine Triple.bind (Q := fun _ => Holds (a.failed rt value s').bindings s'.rowsets)
          (Triple.modify fun _ => id) fun _ => ?_
        refine Triple.bind ((triple_persist_holds _ _ entity _ _).mono (fun _ => id)
          (fun _ _ => id) ?_) fun written => ?_
        · intro e t ht
          refine .failed value hsome ⟨ht.1, ?_⟩
          rw [ht.2, hfailed]
          rfl
        · have hinvalidate : ∀ (key : String) (t : Exec ρ χ ν), Persists rt a value entity t →
              Persists rt a value entity (invalidateAfterCommit rt entity key t) := by
            intro key t ht
            unfold invalidateAfterCommit
            by_cases hread : entity ∈ rt.doc.readThroughEntities
            · rw [if_pos hread]
              exact ht
            · rw [if_neg hread]
              exact ht
          refine Triple.bind (Triple.modify (Q := fun _ t => ∃ written' r, rt.repo.persist entity _
            (stamped rt (rt.doc.entity? entity) (row.toStored.set a.field value)) r =
              .ok written' t.repo ∧ written = unstamped rt (rt.doc.entity? entity) written')
            fun _ h => h.2) fun _ => ?_
          refine Triple.bind (Triple.modify (Q := fun _ => Persists rt a value entity)
            fun t ht => ?_) fun _ => ?_
          · obtain ⟨written', r, hpersist, hwritten⟩ := ht
            refine ⟨_, row.toStored, written', r, hpersist, ?_⟩
            show ((t.bindings.insert a.binding _)[a.binding]?).map Row.toStored = _
            rw [Std.ExtTreeMap.getElem?_insert_self, ← hwritten]
            rfl
          · refine Triple.bind (Q := fun _ => Persists rt a value entity)
              (Triple.modify (hinvalidate _)) fun _ => Triple.modify fun t ht => ?_
            exact ⟨value, entity, hsome, hentity.trans hof, ht⟩

/-- How an attempt ends: refused for its deadline, failed in its Assignment, or with that done. -/
inductive Tried (rt : Runtime ρ χ ν) (call : Call) (a : Assign) (s : Exec ρ χ ν) :
    Option RunError → Exec ρ χ ν → Prop
  | late {e : RunError} (h : call.deadline.any (· ≤ s.now)) : Tried rt call a s (some e) s
  | failed {e : RunError} {t : Exec ρ χ ν} (h : Raised rt call a s t) : Tried rt call a s (some e) t
  | done {t : Exec ρ χ ν} (h : Returned rt call a s t) : Tried rt call a s none t

/-- One attempt of a step of one Assignment. -/
theorem attempt_tried (hstep : step.effects = [a.effect]) (s : Exec ρ χ ν) :
    Triple (fun t => t = s) (attempt rt call step).run
      (fun result t => Tried rt call a s result t) fun _ _ => True := by
  rw [attempt, Coro.run_tryCatch, Coro.run_bind]
  refine Triple.tryCatch (E := fun e t => ∀ r, e = .run r → Tried rt call a s (some r) t) ?_
    fun e => ?_
  · refine Triple.bind (Q := fun _ t => Returned rt call a s t) ?_ fun _ =>
      Triple.pure fun t ht => .done ht
    rw [runStep, Coro.run_bind, Coro.run_lift]
    refine Triple.bind (Q := fun _ t => t = s) ?_ fun _ => ?_
    · refine Triple.bind (Q := fun s' t => s' = s ∧ t = s) (Triple.get fun t ht => ⟨ht, ht⟩)
        fun s' => Triple.assume fun hs' => Triple.ite (fun hlate => ?_) fun _ =>
          Triple.pure fun _ => id
      refine Triple.throw fun t ht r _ => ?_
      rw [ht]
      exact .late (hs' ▸ hlate)
    · rw [hstep, Coro.run_bind, Coro.run_lift]
      refine Triple.bind (Q := fun _ t => Returned rt call a s t) ?_ fun _ =>
        Triple.modify fun _ h => h
      show Triple _ (Coro.run (runEffect rt call a.effect >>= fun _ => pure PUnit.unit)) _ _
      rw [Coro.run_bind]
      refine Triple.bind (Q := fun _ t => Returned rt call a s t) ?_ fun _ =>
        Triple.pure fun _ h => h
      show Triple _ (Coro.run (Coro.lift (assignment rt call a.binding a.field a.expression
        a.aggFieldType) >>= fun _ => Coro.lift (modify (Exec.advance 1)))) _ _
      rw [Coro.run_bind, Coro.run_lift, Coro.run_lift]
      refine Triple.bind (Q := fun _ t => Returned rt call a s t) ?_ fun _ =>
        Triple.modify fun _ h => h
      exact (triple_assignment rt call a s).mono (fun _ => id) (fun _ _ => id)
        fun e t ht r _ => .failed ht
  · cases e with
    | run r => exact Triple.pure fun t ht => ht r rfl
    | driver cls message => exact Triple.throw fun _ _ => trivial
    | other cls => exact Triple.throw fun _ _ => trivial

/-! ### The step -/

/-- The step has succeeded after so many failed attempts. -/
def Succeeds (rt : Runtime ρ χ ν) (call : Call) (a : Assign) (n : Nat) (s t : Exec ρ χ ν) : Prop :=
  ∃ value entity, a.reread rt call n s = some value ∧ a.entity rt s = some entity ∧
    Persists rt a value entity t

theorem Returned.succeeds (h : Returned rt call a s t) :
    Succeeds rt call a 0 s t := h

/-- An attempt that fails is one more before those that follow in its scope. -/
theorem Raised.succeeds {s' u : Exec ρ χ ν} (h : Raised rt call a s s') (hu : SameScope s' u)
    {n : Nat} (ht : Succeeds rt call a n u t) : Succeeds rt call a (n + 1) s t := by
  obtain ⟨value', entity, hreread, hentity, hpersists⟩ := ht
  rw [hu.reread] at hreread
  rw [hu.entity] at hentity
  cases h with
  | nameless _ hs' =>
    rw [hs'] at hentity
    cases hentity
  | unread hs hs' =>
    -- the right side has no value in this scope, nor in that of any later attempt
    rw [hs'.reread] at hreread
    have hnone : a.reread rt call n s = none := by
      cases n with
      | zero => exact hs
      | succ n => rw [Assign.reread, hs]; rfl
    rw [hnone] at hreread
    cases hreread
  | failed value hs hs' =>
    rw [hs'.reread] at hreread
    rw [hs'.entity, entity_failed] at hentity
    refine ⟨value', entity, ?_, hentity, hpersists⟩
    rw [Assign.reread, hs]
    exact hreread

/-- A step that its deadline has refused is not tried again. -/
theorem not_retryable_of_late {now : Nat} (h : call.deadline.any (· ≤ now)) (step : Step)
    (attempts : Nat) : retryable call step attempts now = false := by
  have hlate : call.deadline.any (· ≤ now + backoffMs attempts) = true := by
    cases hdeadline : call.deadline with
    | none =>
      rw [hdeadline] at h
      cases h
    | some deadline =>
      rw [hdeadline] at h
      have hle : deadline ≤ now := of_decide_eq_true h
      exact decide_eq_true (by omega)
  rw [retryable, hlate, Bool.not_true, Bool.and_false, Bool.false_and]

/-- The loop of a step that succeeds: every attempt but the last has left its value in the scope. -/
theorem loop_succeeds (hstep : step.effects = [a.effect]) (rounds begun : Nat)
    {last : Option RunError} (s : Exec ρ χ ν) (hlast : last.isSome ∨ 0 < rounds) :
    Triple (fun t => t = s) (attemptLoop rt call (fun _ => false) step rounds begun last).run
      (fun ended t => ended.2 = none → ∃ n, ended.1 = begun + n + 1 ∧ Succeeds rt call a n s t)
      fun _ _ => True := by
  induction rounds generalizing begun last s with
  | zero =>
    refine Triple.pure fun t ht hnone => ?_
    rcases hlast with hsome | hpos
    · rw [show last = none from hnone] at hsome
      cases hsome
    · exact absurd hpos (Nat.lt_irrefl 0)
  | succ rounds ih =>
    intro s' hs'
    subst hs'
    show Ends _ _ (Coro.run (if _ then _ else _) s')
    rw [if_neg (by rw [Bool.and_false]; exact Bool.false_ne_true)]
    show Ends _ _ ((attempt rt call step >>= _).run s')
    rw [Coro.run_bind]
    refine Triple.bind (attempt_tried hstep s') (fun result => ?_) s' rfl
    intro t htried
    cases htried with
    | done h => exact fun _ => ⟨0, rfl, h.succeeds⟩
    | late hlate =>
      show Ends _ _ (Coro.run (if _ then _ else _) s')
      have hagain : retryable call step (begun + 1) s'.now = false :=
        not_retryable_of_late hlate _ _
      rw [hagain]
      exact nofun
    | failed hraised =>
      show Ends _ _ (Coro.run (if _ then _ else _) t)
      cases hagain : retryable call step (begun + 1) t.now with
      | false => exact nofun
      | true =>
        refine (ih (begun + 1) _ (.inl rfl) _ rfl).mono (fun ended u hu hnone => ?_) fun _ _ => id
        obtain ⟨n, hended, hsucceeds⟩ := hu hnone
        refine ⟨n + 1, by omega, hraised.succeeds ?_ hsucceeds⟩
        exact ⟨rfl, rfl⟩

/-- A step that succeeds has one failed attempt less than attempts. -/
theorem step_succeeds (hstep : step.effects = [a.effect]) {o : Outcome}
    (h : executeStepInline rt call step s = .ok o t) (hok : o.error = none) :
    Succeeds rt call a (o.attempts - 1) s t := by
  rw [executeStepInline, executeStep, Coro.run_bind] at h
  have hloop : Triple (fun t => t = s)
      (attemptLoop rt call (fun _ => false) step maxStepAttempts 0 none).run
      (fun ended t => ended.2 = none → ∃ n, ended.1 = 0 + n + 1 ∧ Succeeds rt call a n s t)
      fun _ _ => True := loop_succeeds hstep maxStepAttempts 0 s (.inr (by decide))
  have hends := hloop s rfl
  cases hrun : (attemptLoop rt call (fun _ => false) step maxStepAttempts 0 none).run s with
  | error e t' =>
    rw [EStateM.bind_error hrun] at h
    cases h
  | ok ended t' =>
    rw [EStateM.bind_ok hrun] at h
    rw [hrun] at hends
    obtain ⟨attempts, error⟩ := ended
    have hfinish : (Coro.lift (finishStep rt call step attempts error)).run t' = .ok o t := h
    rw [Coro.run_lift] at hfinish
    cases error with
    | some e =>
      cases hfinish
      cases hok
    | none =>
      have hstate : t' = t := by
        cases hfinish
        rfl
      obtain ⟨o', t'', hfinish', hattempts⟩ := attempts_finishStep rt call step attempts none t'
      rw [hfinish] at hfinish'
      cases hfinish'
      obtain ⟨n, hn, hsucceeds⟩ := hends rfl
      rw [← hstate, hattempts, show attempts = 0 + n + 1 from hn]
      rw [show 0 + n + 1 - 1 = n by omega]
      exact hsucceeds

/-! ### The law -/

/-- The stamp is put on rows of this entity, and it is this field. -/
def StampsField (rt : Runtime ρ χ ν) (entity : Option Entity) (field : String) : Prop :=
  field = schemaGenKey ∧ rt.repo.isFake = false ∧ entity.isSome

theorem reserved_iff {entity : String} (h : a.entity rt s = some entity) :
    a.reserved rt s = true ↔ StampsField rt (rt.doc.entity? entity) a.field := by
  rw [Assign.reserved, h, StampsField]
  simp [and_assoc]

/-- The stamp leaves the other fields. -/
theorem stamped_get {entity : Option Entity} (h : ¬ StampsField rt entity field) (row : Stored)
    (value : Json) :
    (stamped rt entity (row.set field value)).data[field]? = some value := by
  have hset : (row.set field value).data[field]? = some value :=
    Std.ExtTreeMap.getElem?_insert_self
  cases entity with
  | none => exact hset
  | some e =>
    rw [stamped]
    cases hfake : rt.repo.isFake with
    | true => exact hset
    | false =>
      have hfield : schemaGenKey ≠ field := fun heq => h ⟨heq.symm, hfake, rfl⟩
      show ((row.set field value).data.insert schemaGenKey _)[field]? = some value
      rw [Std.ExtTreeMap.getElem?_insert, if_neg (by simpa using hfield)]
      exact hset

theorem unstamped_get {entity : Option Entity} (h : ¬ StampsField rt entity field) (row : Stored) :
    (unstamped rt entity row).data[field]? = row.data[field]? := by
  rw [unstamped]
  by_cases hstamped : entity.isSome && !rt.repo.isFake
  · rw [if_pos hstamped]
    rw [Bool.and_eq_true, Bool.not_eq_true'] at hstamped
    have hfield : schemaGenKey ≠ field := fun heq => h ⟨heq.symm, hstamped.2, hstamped.1⟩
    show (row.data.erase schemaGenKey)[field]? = row.data[field]?
    rw [Std.ExtTreeMap.getElem?_erase, if_neg (by simpa using hfield)]
  · rw [if_neg hstamped]

/-- The stamp's own key is taken off. -/
theorem unstamped_reserved {entity : Option Entity} (h : StampsField rt entity field)
    (row : Stored) :
    (unstamped rt entity row).data[field]? = none := by
  obtain ⟨rfl, hfake, hentity⟩ := h
  rw [unstamped, if_pos (by rw [hentity, hfake]; rfl)]
  exact Std.ExtTreeMap.getElem?_erase_self

/-- **An Assignment under retry.**  Where a step of one Assignment succeeds, what it has persisted
and left bound is the value that its right side had before the first attempt, exactly where
evaluating it again for each failed attempt, in the scope the one before has left, gives that value
back, and the target is not the stamp's own key. -/
theorem appliedOnce_iff (rt : Runtime ρ χ ν) (call : Call) (a : Assign) (step : Step)
    (hstep : step.effects = [a.effect])
    (hdriver : ∀ entity key row r written r', rt.repo.persist entity key row r = .ok written r' →
      written.data = row.data)
    (s t : Exec ρ χ ν) (o : Outcome) (h : executeStepInline rt call step s = .ok o t)
    (hok : o.error = none) :
    a.AppliedOnce rt call s t ↔
      a.reread rt call (o.attempts - 1) s = a.value rt call s ∧ a.reserved rt s = false := by
  obtain ⟨value, entity, hreread, hentity, key, row, written, r, hpersist, hbound⟩ :=
    step_succeeds hstep h hok
  have hwritten := hdriver _ _ _ _ _ _ hpersist
  have hrow : (t.bindings[a.binding]?.bind fun row => row.data[a.field]?) =
      (unstamped rt (rt.doc.entity? entity) written).data[a.field]? := by
    cases hfound : t.bindings[a.binding]? with
    | none =>
      rw [hfound] at hbound
      cases hbound
    | some bound =>
      rw [hfound, Option.map_some, Option.some.injEq] at hbound
      rw [← hbound]
      rfl
  have hvalue : ¬ StampsField rt (rt.doc.entity? entity) a.field →
      (unstamped rt (rt.doc.entity? entity) written).data[a.field]? = some value := by
    intro hstamps
    rw [unstamped_get hstamps, hwritten]
    exact stamped_get hstamps row value
  rw [Bool.eq_false_iff, ne_eq, reserved_iff hentity, hreread]
  constructor
  · rintro ⟨first, hfirst, hfinal, -⟩
    have hstamps : ¬ StampsField rt (rt.doc.entity? entity) a.field := by
      intro hstamps
      rw [hrow, unstamped_reserved hstamps] at hfinal
      cases hfinal
    rw [hrow, hvalue hstamps] at hfinal
    exact ⟨hfinal.trans hfirst.symm, hstamps⟩
  · rintro ⟨hsame, hstamps⟩
    refine ⟨value, hsame.symm, hrow.trans (hvalue hstamps), entity, key, _, written, r, hentity,
      hpersist, ?_⟩
    exact stamped_get hstamps row value

/-! ### A deduction that is applied twice -/

/-- `set product.stock to product.stock - 1`. -/
def deduction : Assign where
  id := "w.step.2.assign"
  binding := "product"
  field := "stock"
  expression := "product.stock - 1"
  aggFieldType := none

def deductionStep : Step :=
  ⟨"w.step.2", "set product.stock to product.stock - 1", [deduction.effect]⟩

/-- The workflow of that step, which may be retried once. -/
def deductionWorkflow : Workflow where
  id := "w"
  name := "deduct"
  body := [.step deductionStep]
  constraints := { retry := 1 }
  distinct := List.nodup_singleton _

/-- The plain language, with the right side of the deduction. -/
def Lang.deduction : Lang :=
  { Lang.plain with
    assignmentValue := fun _ _ s _ =>
      match resolveReference (.qualified "product" "stock") s with
      | .int n => .ok (.int (n - 1))
      | _ => .ok .null }

/-- A store that is unavailable for so many calls of `persist`. -/
def Repo.unavailable : Repo Nat where
  begin := pure ()
  commit := pure ()
  rollback := pure ()
  execute _ _ _ := pure .none
  query _ := pure []
  persist _ _ row n :=
    match n with
    | n + 1 => .error (.driver .driverError "cannot persist entity.product: database is locked") n
    | 0 => .ok row 0
  recordEmission _ := pure ()

def deductionRuntime : Runtime Nat Unit Unit where
  doc := .single deductionWorkflow
  lang := .deduction
  repo := .unavailable
  cache := .silent
  network := .silent

def deductionCall : Call := startCall deductionRuntime deductionWorkflow ∅ (fun _ => "") 0

/-- A row with five pieces in stock is bound, and the store is unavailable once. -/
def deductionState : Exec Nat Unit Unit where
  repo := 1
  cache := ()
  network := ()
  bindings := (∅ : Bindings).insert "product" {
    data := (∅ : Dict).insert "stock" (.int 5)
    entityId := some "entity.product" }

def deductionRun : EStateM.Result Exc (Exec Nat Unit Unit) Outcome :=
  executeStepInline deductionRuntime deductionCall deductionStep deductionState

theorem deduction_value :
    deduction.value deductionRuntime deductionCall deductionState = some (.int 4) := rfl

theorem unavailable_keeps (entity key : String) (row : Stored) (r : Nat) (written : Stored)
    (r' : Nat) (h : Repo.unavailable.persist entity key row r = .ok written r') :
    written.data = row.data := by
  cases r with
  | zero =>
    cases h
    rfl
  | succ n => cases h

/-- What the law says of that run. -/
theorem deduction_appliedOnce_iff : ∃ o t, deductionRun = .ok o t ∧
    (deduction.AppliedOnce deductionRuntime deductionCall deductionState t ↔
      deduction.reread deductionRuntime deductionCall (o.attempts - 1) deductionState =
          deduction.value deductionRuntime deductionCall deductionState ∧
        deduction.reserved deductionRuntime deductionState = false) := by
  have hlaw := appliedOnce_iff deductionRuntime deductionCall deduction deductionStep rfl
    unavailable_keeps deductionState _ _ rfl rfl
  exact ⟨_, _, rfl, hlaw⟩

/-- **A deduction applied twice.**  `persist` fails once, and of five pieces in stock three are
left. -/
theorem deduction_applied_twice : ∃ o t, deductionRun = .ok o t ∧ o.error = none ∧ o.attempts = 2 ∧
    ¬ deduction.AppliedOnce deductionRuntime deductionCall deductionState t := by
  refine ⟨_, _, rfl, rfl, rfl, ?_⟩
  rintro ⟨value, hvalue, hbound, -⟩
  rw [deduction_value, Option.some.injEq] at hvalue
  rw [← hvalue] at hbound
  have hthree : some (Json.int 3) = some (.int 4) := hbound
  simp at hthree

end Lnpl.Interp
