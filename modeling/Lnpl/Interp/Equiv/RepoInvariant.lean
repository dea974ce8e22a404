import Lnpl.Interp.Equiv.Interpreter
import Lnpl.Interp.Equiv.Steps

/-!
# What the effects of a run leave of the repository driver

An invariant of the driver that its calls on rows and emissions keep (`Repo.RowsKeep`) is kept by
the whole of the main loop (`effectInvariant_repo`): between the calls of the transaction bracket
nothing else touches the driver.
-/

namespace Lnpl.Interp

open Lnpl.Lib

variable {ρ χ ν α : Type} {K : ρ → Prop}

/-- The calls of the driver on rows and emissions keep a predicate on its state. -/
structure Repo.RowsKeep (repo : Repo ρ) (K : ρ → Prop) : Prop where
  execute : ∀ e op k, Keeps K (repo.execute e op k)
  query : ∀ e, Keeps K (repo.query e)
  queryPredicate : ∀ query, repo.queryPredicate = some query → ∀ e predicate order limit,
    Keeps K (query e predicate order limit)
  persist : ∀ e k row, Keeps K (repo.persist e k row)
  recordEmission : ∀ emission, Keeps K (repo.recordEmission emission)

/-- The predicate, of the driver of an execution. -/
abbrev OfRepo (K : ρ → Prop) (s : Exec ρ χ ν) : Prop := K s.repo

variable {rt : Runtime ρ χ ν} {call : Call}

/-! ### Calls of the drivers -/

theorem keeps_repo_onRepo {m : EStateM Exc ρ α} (h : Keeps K m) :
    Keeps (OfRepo K) (onRepo m : M ρ χ ν α) :=
  Triple.zoom_ends fun s hs => h s.repo hs

/-- A cache call leaves the repository driver alone. -/
theorem keeps_repo_onCache (m : EStateM Exc χ α) :
    Keeps (OfRepo K) (onCache m : M ρ χ ν α) := by
  refine Keeps.zoom ?_ m
  exact fun _ _ => id

theorem keeps_repo_invalidateAfterCommit (entity key : String) :
    Keeps (OfRepo K) (modify (invalidateAfterCommit rt entity key) : M ρ χ ν Unit) := by
  refine Keeps.modify fun s h => ?_
  unfold invalidateAfterCommit
  split
  · exact h
  · exact h

theorem keeps_repo_bindRead (entity key : String) (row : Stored) :
    Keeps (OfRepo K) (modify (bindRead rt entity key row) : M ρ χ ν Unit) := by
  refine Keeps.modify fun s h => ?_
  unfold bindRead
  split
  · exact h
  · exact h

/-! ### The effects -/

section Effects

variable (hrepo : rt.repo.RowsKeep K)
include hrepo

theorem keeps_repo_persist (entity key : String) (row : Stored) :
    Keeps (OfRepo K) (persist rt entity key row : M ρ χ ν Stored) := by
  refine Keeps.bind (Keeps.modify fun _ => id) fun _ => ?_
  refine Keeps.bind (keeps_translated (keeps_repo_onRepo (hrepo.persist _ _ _))) fun _ => ?_
  exact Keeps.pure _

theorem keeps_repo_assignment (binding field expression : String) (aggFieldType : Option String) :
    Keeps (OfRepo K) (assignment rt call binding field expression aggFieldType) := by
  refine Keeps.get.bind fun s => ?_
  cases s.bindings[binding]? with
  | none => exact Keeps.throw _
  | some row =>
    refine (Keeps.ofExcept _).bind fun value => Keeps.check ?_
    refine Keeps.bind (Keeps.modify fun _ => id) fun _ => ?_
    cases (rt.doc.entityIdForBinding binding).orElse fun _ => row.entityId with
    | none => exact Keeps.throw _
    | some entity =>
      refine Keeps.bind (Keeps.modify fun _ => id) fun _ => ?_
      refine Keeps.bind (Keeps.modify fun _ => id) fun _ => ?_
      refine (keeps_repo_persist hrepo _ _ _).bind fun written => ?_
      refine Keeps.bind (Keeps.modify fun _ => id) fun _ => ?_
      refine Keeps.bind (Keeps.modify fun _ => id) fun _ => ?_
      refine (keeps_repo_invalidateAfterCommit _ _).bind fun _ => ?_
      exact Keeps.modify fun _ => id

theorem keeps_repo_query (entity : String) (predicate : List PredicateTerm) (order : Option Order)
    (limit : Option Nat) : Keeps (OfRepo K) (query rt call entity predicate order limit) := by
  have hrows : ∀ values, Keeps (OfRepo K) (queryRows rt entity values order limit : M ρ χ ν (List Dict)) := by
    intro values
    refine Keeps.ite (keeps_repo_onRepo (hrepo.query entity)) ?_
    cases hpush : rt.repo.queryPredicate with
    | some query => exact keeps_repo_onRepo (hrepo.queryPredicate query hpush _ _ _ _)
    | none =>
      refine (keeps_repo_onRepo (hrepo.query entity)).bind fun rows => ?_
      refine (Keeps.ofExcept _).bind fun rows => Keeps.bind (Keeps.modify fun _ => id) fun _ => ?_
      exact Keeps.pure _
  refine Keeps.get.bind fun s => (Keeps.ofExcept _).bind fun values => ?_
  refine Keeps.bind (Keeps.modify fun _ => id) fun _ => ?_
  refine (keeps_translated (hrows _)).bind fun rows => ?_
  cases rt.doc.entity? entity with
  | none => exact Keeps.pure _
  | some e => exact Keeps.modify fun _ => id

theorem keeps_repo_fetch (entity : String) (op : Operation) (key : String) (cached : Bool) :
    Keeps (OfRepo K) (fetch rt call entity op key cached) := by
  have hexecute := keeps_translated (χ := χ) (ν := ν) (keeps_repo_onRepo (hrepo.execute entity op key))
  refine Keeps.get.bind fun s => ?_
  cases cached with
  | false =>
    refine (Keeps.pure none).bind fun hit => ?_
    cases hit with
    | some row => exact Keeps.bind (Keeps.modify fun _ => id) fun _ => Keeps.pure _
    | none =>
      refine hexecute.bind fun found => ?_
      cases found.strip with
      | dict row => exact Keeps.pure _
      | none => exact Keeps.pure _
      | other => exact Keeps.pure _
  | true =>
    refine (keeps_orOutage (keeps_repo_onCache _) (Keeps.pure _)).bind fun hit => ?_
    cases hit with
    | some row => exact Keeps.bind (Keeps.modify fun _ => id) fun _ => Keeps.pure _
    | none =>
      refine hexecute.bind fun found => ?_
      cases found.strip with
      | none => exact Keeps.pure _
      | other => exact Keeps.pure _
      | dict row =>
        refine Keeps.bind (keeps_orOutage ?_ (Keeps.pure _)) fun _ => ?_
        · exact (keeps_repo_onCache _).bind fun _ => Keeps.modify fun _ => id
        · exact Keeps.bind (Keeps.modify fun _ => id) fun _ => Keeps.pure _

theorem keeps_repo_createRow (entity key : String) (fills : Dict) (result : Option String) :
    Keeps (OfRepo K) (createRow rt call entity key fills result) := by
  have hpersist := keeps_repo_persist hrepo entity key
    { data := seededRow call (rt.doc.entity? entity) fills key }
  cases result with
  | none => exact Keeps.ite (hpersist.bind fun _ => Keeps.pure _) (Keeps.pure _)
  | some name =>
    have hbind : ∀ b, Keeps (OfRepo K) (modify (Exec.bind name b) : M ρ χ ν Unit) :=
      fun b => Keeps.modify fun _ => id
    exact Keeps.ite (hpersist.bind fun _ => hbind _) (hbind _)

omit hrepo in
theorem keeps_repo_notFound (entity : String) (op : Operation) :
    Keeps (OfRepo K) (notFound entity op : M ρ χ ν α) :=
  Keeps.bind (Keeps.modify fun _ => id) fun _ => Keeps.throw _

theorem keeps_repo_repositoryCall (entity : String) (op : Operation) (lookup : Option Ref)
    (cached : Bool) (result : Option String) :
    Keeps (OfRepo K) (repositoryCall rt call entity op lookup cached result) := by
  unfold repositoryCall
  dsimp only
  refine Keeps.check (Keeps.get.bind fun s => (Keeps.ofExcept _).bind fun key => ?_)
  refine Keeps.bind (Keeps.modify fun _ => id) fun _ => ?_
  refine (keeps_repo_fetch hrepo entity op key cached).bind fun found => ?_
  cases op with
  | read =>
    cases found with
    | none => exact keeps_repo_notFound _ _
    | dict row => exact keeps_repo_bindRead _ _ _
    | other => exact Keeps.pure _
  | create => exact keeps_repo_createRow hrepo _ _ _ _
  | update =>
    refine (keeps_repo_invalidateAfterCommit _ _).bind fun _ => ?_
    exact Keeps.ite (keeps_repo_notFound _ _) (Keeps.pure _)
  | delete =>
    refine (keeps_repo_invalidateAfterCommit _ _).bind fun _ => ?_
    exact Keeps.ite (keeps_repo_notFound _ _) (Keeps.pure _)

omit hrepo in
theorem keeps_repo_cacheAccess (op : CacheOperation) (key : List String) :
    Keeps (OfRepo K) (cacheAccess rt call op key) := by
  refine Keeps.get.bind fun s => keeps_translated ?_
  cases op with
  | set => exact keeps_repo_onCache _
  | get => exact (keeps_repo_onCache _).bind fun _ => Keeps.pure _
  | invalidate => exact keeps_repo_onCache _

theorem keeps_repo_eventEmit (node : String) (event : Option String) (payloadMap : List MapEntry) :
    Keeps (OfRepo K) (eventEmit rt call node event payloadMap) := by
  cases event with
  | none => exact Keeps.throw _
  | some event =>
    unfold eventEmit
    refine Keeps.check (Keeps.get.bind fun s => ?_)
    refine (keeps_translated (keeps_repo_onRepo (hrepo.recordEmission _))).bind fun _ => ?_
    exact Keeps.bind (Keeps.modify fun _ => id) fun _ => Keeps.modify fun _ => id

theorem keeps_repo_atomicEffect (e : Effect) : Keeps (OfRepo K) (atomicEffect rt call e) := by
  cases e with
  | networkCall id target pathArgs bodyMap result => exact Keeps.pure _
  | assignment id binding field expression aggFieldType => exact keeps_repo_assignment hrepo _ _ _ _
  | validation id rule target => exact Keeps.ofExcept _
  | query id entity predicate order limit => exact keeps_repo_query hrepo _ _ _ _
  | repositoryCall id entity op lookup cached result =>
    exact keeps_repo_repositoryCall hrepo _ _ _ _ _
  | cacheAccess id op key => exact keeps_repo_cacheAccess _ _
  | authorization id requirement => exact Keeps.pure _
  | eventEmit id event payloadMap => exact keeps_repo_eventEmit hrepo _ _ _
  | response id refs aggTerms listTerm => exact Keeps.pure _
  | annotated id template refs => exact Keeps.pure _
  | rejection id code => exact Keeps.throw _

/-- Every effect keeps what the calls of the driver keep. -/
theorem effectInvariant_repo (call : Call) (declared : List Step) :
    EffectInvariant rt call declared (OfRepo K) where
  effect _ _ e _ := keeps_runEffect (keeps_repo_atomicEffect hrepo e)
    (keeps_networkCall (fun _ _ => id) (fun _ _ => id) fun _ _ _ => id) fun _ => id
  advance _ _ := id
  log _ _ _ _ := id
  cancelEvent _ _ := id

end Effects

/-! ### The transaction bracket -/

/-- What the calls of the bracket do: `P` before `begin()`, `K` between the calls, `A` after
`commit()`, `C` after `rollback()`, and `B` where one of the two has raised. -/
structure Repo.Bracket (repo : Repo ρ) (P K A B C : ρ → Prop) : Prop where
  rows : repo.RowsKeep K
  begin : Triple P repo.begin (fun _ => K) fun _ => P
  commit : Triple K repo.commit (fun _ => A) fun _ => B
  rollback : Triple K repo.rollback (fun _ => C) fun _ => B

/-- The faults of `cache.invalidate` are `DriverError`s. -/
def Cache.InvalidateFaults (cache : Cache χ) : Prop :=
  ∀ key, Triple (fun _ => True) (cache.invalidate key) (fun _ _ => True)
    fun e _ => ∃ cls message, e = .driver cls message

/-- The predicate, of the driver of a session. -/
abbrev OfSession (K : ρ → Prop) (t : Session ρ χ ν) : Prop := K t.run.exec.repo

/-- The run has failed, or not, and left the driver so. -/
def ClosedBy (A C : ρ → Prop) (t : Session ρ χ ν) : Prop :=
  if t.run.failure.isNone then OfSession A t else OfSession C t

section Bracket

variable {P A B C : ρ → Prop}

section

variable (hcache : rt.cache.InvalidateFaults)
include hcache

/-- Invalidating keys raises nothing and leaves the driver alone. -/
theorem triple_repo_invalidate (key : String) :
    Triple (OfRepo K) (invalidateReadThrough rt key : M ρ χ ν Unit) (fun _ => OfRepo K)
      fun _ _ => False := by
  refine Triple.tryCatch (E := fun e s => (∃ cls message, e = .driver cls message) ∧ K s.repo) ?_ ?_
  · refine Triple.zoom_ends fun s hs => ?_
    exact Ends.mono (hcache key s.cache trivial) (fun _ _ _ => hs) fun e _ he => ⟨he, hs⟩
  · intro e
    refine Triple.assume fun he => ?_
    obtain ⟨cls, message, rfl⟩ := he
    exact Triple.modify fun _ => id

theorem triple_repo_invalidateWritten :
    Triple (OfRepo K) (invalidateWrittenAfterCommit rt : M ρ χ ν Unit) (fun _ => OfRepo K)
      fun _ _ => False := by
  refine Triple.bind (Q := fun _ => OfRepo K) (Triple.get fun _ => id) fun s => ?_
  exact (Triple.forM fun key _ => triple_repo_invalidate hcache key).bind fun _ =>
    Triple.modify fun _ => id

theorem triple_repo_discard :
    Triple (OfRepo K) (discardReadThroughWrites rt : M ρ χ ν Unit) (fun _ => OfRepo K)
      fun _ _ => False := by
  refine Triple.bind (Q := fun _ => OfRepo K) (Triple.get fun _ => id) fun s => ?_
  exact (Triple.forM fun key _ => triple_repo_invalidate hcache key).bind fun _ =>
    Triple.modify fun _ => id

end

/-- A program on the execution state leaves the failure of the run alone. -/
theorem keeps_failure_onExec (f : Option Failure) (m : M ρ χ ν α) :
    Keeps (fun t : Session ρ χ ν => t.run.failure = f) (onRun (onExec m)) := by
  have h : Keeps (fun r : Run ρ χ ν => r.failure = f) (onExec m) := by
    refine Keeps.zoom ?_ m
    exact fun _ _ => id
  exact triple_onRun h

/-- A call of the bracket on the driver of a session. -/
theorem triple_repo_boundary (op : BoundaryOp) {Q E : ρ → Prop} (f : Option Failure)
    (h : Triple K (rt.repo.boundary op) (fun _ => Q) fun _ => E) :
    Triple (fun t : Session ρ χ ν => t.run.failure = f ∧ OfSession K t) (boundary rt op)
      (fun _ t => t.run.failure = f ∧ OfSession Q t) fun _ => OfSession E :=
  triple_boundary_ends fun t ht => Ends.mono (h t.run.exec.repo ht.2)
    (fun _ _ hd => ⟨ht.1, hd⟩) fun _ _ => id

/-- Keys are invalidated inside a session. -/
theorem triple_repo_keys (f : Option Failure) {m : M ρ χ ν Unit}
    (h : Triple (OfRepo K) m (fun _ => OfRepo K) fun _ _ => False) :
    Triple (fun t : Session ρ χ ν => t.run.failure = f ∧ OfSession K t) (onRun (onExec m))
      (fun _ t => t.run.failure = f ∧ OfSession K t) fun _ _ => False :=
  ((keeps_failure_onExec f m).and (triple_onRun (triple_onExec h))).mono (fun _ => id)
    (fun _ _ => id) fun _ _ => And.right

/-- What a run that ends with an exception may leave. -/
def Escaped (P K B C : ρ → Prop) (t : Session ρ χ ν) : Prop :=
  OfSession P t ∨ OfSession K t ∨ OfSession B t ∨ OfSession C t

theorem closedBy_closeBracket (h : rt.repo.Bracket P K A B C) (hcache : rt.cache.InvalidateFaults) :
    Triple (OfSession K) (closeBracket rt call) (fun _ => ClosedBy A C) fun _ => Escaped P K B C := by
  refine Triple.bind (Q := fun r t => t.run.failure = r.run.failure ∧ OfSession K t)
    (Triple.get fun t ht => ⟨rfl, ht⟩) fun r => Triple.ite (fun hf => ?_) fun hf => ?_
  · refine Triple.bind (Q := fun _ t => t.run.failure = r.run.failure ∧ OfSession A t) ?_ fun _ => ?_
    · exact (triple_repo_boundary .commit _ h.commit).mono (fun _ => id) (fun _ _ => id)
        fun _ _ hB => Or.inr (Or.inr (Or.inl hB))
    · refine (triple_repo_keys _ (triple_repo_invalidateWritten hcache)).mono (fun _ => id) ?_
        fun _ _ => False.elim
      intro _ t ht
      unfold ClosedBy
      rw [ht.1, if_pos hf]
      exact ht.2
  · refine Triple.bind (Q := fun _ t => t.run.failure = r.run.failure ∧ OfSession C t) ?_ fun _ => ?_
    · exact (triple_repo_boundary .rollback _ h.rollback).mono (fun _ => id) (fun _ _ => id)
        fun _ _ hB => Or.inr (Or.inr (Or.inl hB))
    · refine Triple.bind ((triple_repo_keys _ (triple_repo_discard hcache)).mono (fun _ => id)
        (fun _ _ => id) fun _ _ => False.elim) fun _ => ?_
      refine Triple.zoom fun t ht => Triple.ite (fun _ => Triple.modify fun s hs => ?_)
        fun _ => Triple.pure fun s hs => ?_
      · subst hs
        unfold ClosedBy
        rw [show (_ : Session ρ χ ν).run.failure = t.run.failure from rfl, ht.1, if_neg hf]
        exact ht.2
      · subst hs
        unfold ClosedBy
        rw [show (_ : Session ρ χ ν).run.failure = t.run.failure from rfl, ht.1, if_neg hf]
        exact ht.2

theorem escaped_escape (h : rt.repo.Bracket P K A B C) (hcache : rt.cache.InvalidateFaults) (e : Exc) :
    Triple (OfSession K) (escape rt e : W ρ χ ν Flow) (fun _ => OfSession K)
      fun _ => Escaped P K B C := by
  refine Triple.ite (fun _ => ?_) fun _ => Triple.throw fun _ hK => Or.inr (Or.inl hK)
  refine Triple.bind (Q := fun _ => OfSession C) ?_ fun _ => Triple.bind (Q := fun _ => OfSession C) ?_
    fun _ => Triple.throw fun _ hC => Or.inr (Or.inr (Or.inr hC))
  · exact triple_boundary_ends fun t ht => Ends.mono (h.rollback t.run.exec.repo ht)
      (fun _ _ => id) fun _ _ hB => Or.inr (Or.inr (Or.inl hB))
  · exact (triple_onRun (triple_onExec (triple_repo_discard hcache))).mono (fun _ => id)
      (fun _ _ => id) fun _ _ => False.elim

/-- **The bracket rule**: a run that returns has left the driver as `commit()` or `rollback()` leave
it, by its status; what one leaves that raises is listed by `Escaped`. -/
theorem runWorkflow_closedBy (rt : Runtime ρ χ ν) (h : rt.repo.Bracket P K A B C)
    (hcache : rt.cache.InvalidateFaults)
    (workflow : String) (payload : Dict) (fill : FillSource → String) (schedules : Nat → List Move)
    {s : Exec ρ χ ν} (hs : P s.repo) :
    Ends (fun result t => ClosedBy A C t ∧ result.failure = t.run.failure)
      (fun _ => Escaped P K B C) (runWorkflow rt workflow payload fill schedules s) := by
  unfold runWorkflow
  cases hwf : rt.doc.workflows.find? fun wf => wf.id = workflow with
  | none => exact Or.inl hs
  | some wf =>
    show Ends _ _ (runCall rt (startCall rt wf payload fill s.now) schedules _)
    generalize startCall rt wf payload fill s.now = call
    refine Triple.bind (P := OfSession P) (Q := fun _ => OfSession P) ?_ (fun _ => ?_)
      { run := { exec := s.fresh } } hs
    · have hlog : Triple (OfRepo P) (modify (logStart rt call) : M ρ χ ν Unit) (fun _ => OfRepo P)
          fun _ _ => False := Triple.modify fun _ => id
      exact (triple_onRun (triple_onExec hlog)).mono (fun _ => id) (fun _ _ => id)
        fun _ _ => False.elim
    refine Triple.bind (Q := fun _ => OfSession K) ?_ fun _ => ?_
    · exact triple_boundary_ends fun t ht => Ends.mono (h.begin t.run.exec.repo ht)
        (fun _ _ => id) fun _ _ => Or.inl
    have hloop := (effectInvariant_repo h.rows call call.workflow.steps).loopInvariant
    have hbody := hloop.bodyInvariant.keeps_runBody schedules (fun _ => id) call.workflow.distinct
    refine Triple.bind (Q := fun _ => OfSession K) (Triple.bind (Q := fun _ => OfSession K)
      (Triple.tryCatch (triple_onRun hbody) fun e => escaped_escape h hcache e) fun _ => ?_)
      fun terms => ?_
    · exact (triple_onRun (hloop.toFailInvariant.keeps_termResponse)).mono (fun _ => id)
        (fun _ _ => id) fun _ _ hK => Or.inr (Or.inl hK)
    refine Triple.bind (closedBy_closeBracket h hcache) fun _ => ?_
    refine Triple.bind (Q := fun r t => ClosedBy A C t ∧ r = t) (Triple.get fun t ht => ⟨ht, rfl⟩)
      fun r => Triple.pure fun t ht => ⟨ht.1, ?_⟩
    rw [← ht.2]
    rfl

end Bracket

end Lnpl.Interp
