import Lnpl.Interp.Equiv.Branches
import Lnpl.Interp.Equiv.Steps

/-!
# Where a failure comes from

The failure of a run keeps the `DriverError` its error was raised from as bookkeeping.  Where the
drivers and the expression language raise `RunError`s without one (`PlainFaults`), the failure of
every run says what it comes from (`Failure.Sound`): one that was raised from a `DriverError` has the
kind of that error, and any other has none or one of a few kinds.
-/

namespace Lnpl.Interp

open Lnpl.Lib

variable {ρ χ ν α : Type}

/-! ### Errors -/

/-- The kinds that an error has by itself. -/
def ownKinds : List String := ["conflict", "deadline", "id-required", "not-found", "rejected"]

/-- An error raised from a `DriverError` has no kind by itself, and any other has none or one of a
few. -/
structure RunError.Sound (e : RunError) : Prop where
  cause : e.cause.isSome → e.failureKind = none
  kind : ∀ kind, e.failureKind = some kind → kind ∈ ownKinds

/-- A `RunError` is sound. -/
def Exc.Sound (e : Exc) : Prop := ∀ error, e = .run error → error.Sound

/-- A `RunError` was raised from no `DriverError`, and has no kind, or that of a create conflict. -/
def Exc.Plain (e : Exc) : Prop :=
  ∀ error, e = .run error → error.cause = none ∧
    (error.failureKind = none ∨ error.failureKind = some "conflict")

variable {e : Exc} {message : String} {kind : Option String} {m : M ρ χ ν α}

theorem Exc.Plain.sound (h : e.Plain) : e.Sound := by
  intro error he
  obtain ⟨hcause, hkind⟩ := h error he
  refine ⟨fun hsome => ?_, fun kind hk => ?_⟩
  · rw [hcause] at hsome
    exact nomatch hsome
  · rw [hk] at hkind
    rcases hkind with hnone | hconflict
    · exact nomatch hnone
    · rw [Option.some.inj hconflict]
      exact List.mem_cons_self

theorem Exc.Plain.translated (h : e.Plain) : e.translated.Sound := by
  cases e with
  | run error => exact h.sound
  | other cls => exact h.sound
  | driver cls message =>
    intro error he
    obtain rfl := Exc.run.inj he
    exact ⟨fun _ => rfl, nofun⟩

theorem sound_of_own (h : ∀ k, kind = some k → k ∈ ownKinds) :
    Exc.Sound (.run { message := message, failureKind := kind }) := by
  intro error he
  obtain rfl := Exc.run.inj he
  exact ⟨nofun, h⟩

/-- What is raised by itself, without a kind. -/
theorem sound_plain (message : String) : Exc.Sound (.run { message := message }) :=
  sound_of_own nofun

/-! ### The failure of a run -/

/-- The failure says what it comes from: it has the kind of the `DriverError` its error was raised
from, and otherwise none or one of a few. -/
structure Failure.Sound (f : Failure) : Prop where
  cause : ∀ cls, f.cause = some cls → f.kind = match cls with
    | .driverError => none
    | .conflictError => some "conflict"
    | .writeConflictError => some "write-conflict"
  own : f.cause = none → ∀ kind, f.kind = some kind → kind ∈ ownKinds

/-- The failure of a run, if any, is sound. -/
def Run.SoundFailure (r : Run ρ χ ν) : Prop := ∀ f, r.failure = some f → f.Sound

theorem RunError.Sound.failure {e : RunError} (h : e.Sound) (step : String) :
    Failure.Sound ⟨step, e.message, e.kind, e.cause⟩ where
  cause cls hcause := by
    have hkind := h.cause (by rw [show e.cause = some cls from hcause]; rfl)
    show e.kind = _
    unfold RunError.kind
    rw [show e.cause = some cls from hcause]
    cases cls with
    | driverError => exact hkind
    | conflictError => rfl
    | writeConflictError => rfl
  own hcause kind hkind := by
    refine h.kind kind ?_
    rw [← hkind]
    show _ = e.kind
    unfold RunError.kind
    rw [show e.cause = none from hcause]

theorem soundFailure_failWith {f : Failure} (h : f.Sound) (r : Run ρ χ ν) :
    (r.failWith f).SoundFailure := by
  intro f' hf'
  rw [← Option.some.inj hf']
  exact h

theorem soundFailure_exceedDeadline (rt : Runtime ρ χ ν) (call : Call) (step : Step) (r : Run ρ χ ν) :
    (r.exceedDeadline rt call step).SoundFailure := by
  refine soundFailure_failWith ⟨fun cls hcls => ?_, fun _ kind hkind => ?_⟩ r
  · exact absurd hcls (Option.some_ne_none cls).symm
  rw [← Option.some.inj hkind]
  decide

/-! ### What the parts raise -/

/-- The `RunError`s of the drivers and of the expression language are plain. -/
structure Runtime.PlainFaults (rt : Runtime ρ χ ν) : Prop where
  execute : ∀ e op k, Raises Exc.Plain (rt.repo.execute e op k)
  query : ∀ e, Raises Exc.Plain (rt.repo.query e)
  queryPredicate : ∀ query, rt.repo.queryPredicate = some query → ∀ e predicate order limit,
    Raises Exc.Plain (query e predicate order limit)
  persist : ∀ e k row, Raises Exc.Plain (rt.repo.persist e k row)
  recordEmission : ∀ emission, Raises Exc.Plain (rt.repo.recordEmission emission)
  cacheGet : ∀ now key, Raises Exc.Plain (rt.cache.get now key)
  cacheSet : ∀ now key row ttl, Raises Exc.Plain (rt.cache.set now key row ttl)
  cacheInvalidate : ∀ key, Raises Exc.Plain (rt.cache.invalidate key)
  network : ∀ request remaining, Raises Exc.Plain (rt.network.call request remaining)
  lt : ∀ a b, Errs Exc.Plain (rt.lang.lt a b)
  le : ∀ a b, Errs Exc.Plain (rt.lang.le a b)
  assignmentValue : ∀ text type s rowsets, Errs Exc.Plain (rt.lang.assignmentValue text type s rowsets)
  predicateValue : ∀ text s, Errs Exc.Plain (rt.lang.predicateValue text s)
  aggregate : ∀ text type rowsets, Errs Exc.Plain (rt.lang.aggregate text type rowsets)
  validate : ∀ rule target payload, Errs Exc.Plain (rt.lang.validate rule target payload)

variable {rt : Runtime ρ χ ν} {call : Call}

theorem raises_fail (h : ∀ k, kind = some k → k ∈ ownKinds) :
    Raises Exc.Sound (fail message kind : M ρ χ ν α) :=
  Raises.throw (sound_of_own h)

theorem raises_translated (h : Raises Exc.Plain m) : Raises Exc.Sound (translated m) :=
  Raises.tryCatch h fun _ he => Raises.throw he.translated

theorem raises_orOutage {E : Exc → Prop} {outage : M ρ χ ν α} (h : Raises E m)
    (ho : Raises E outage) : Raises E (orOutage m outage) := by
  refine Raises.tryCatch h fun e he => ?_
  cases e with
  | driver cls message => exact ho
  | run error => exact Raises.throw he
  | other cls => exact Raises.throw he

section Effects

variable (hrt : rt.PlainFaults)
include hrt

/-! ### Predicates -/

theorem errs_predicateOp (op : String) (a b : Json) :
    Errs Exc.Plain (predicateOp rt.lang op a b) := by
  unfold predicateOp
  split
  · exact Errs.ok _
  · exact Errs.ok _
  · exact hrt.lt _ _
  · exact hrt.le _ _
  · exact hrt.lt _ _
  · exact hrt.le _ _
  · exact Errs.error nofun

theorem errs_rowMatches (row : Dict) (predicate : List (String × String × Json)) :
    Errs Exc.Plain (rowMatches rt.lang row predicate) := by
  induction predicate with
  | nil => exact Errs.ok _
  | cons term predicate ih =>
    refine Errs.ite (Errs.ok _) (Errs.bind (errs_predicateOp hrt _ _ _) fun holds => ?_)
    exact Errs.ite (Errs.ok _) ih

theorem errs_filterRows (predicate : List (String × String × Json)) (rows : List Dict) :
    Errs Exc.Plain (filterRows rt.lang predicate rows) := by
  induction rows with
  | nil => exact Errs.ok _
  | cons row rows ih =>
    exact Errs.bind (errs_rowMatches hrt row predicate) fun _ => Errs.bind ih fun _ => Errs.ok _

omit hrt in
theorem errs_insertRow {E : Exc → Prop} {lt : Json → Json → Except Exc Bool}
    (hlt : ∀ a b, Errs E (lt a b)) (field : String) (row : Dict) (rows : List Dict) :
    Errs E (insertRow lt field row rows) := by
  induction rows with
  | nil => exact Errs.ok _
  | cons other rows ih =>
    refine Errs.bind (hlt _ _) fun less => Errs.ite (Errs.ok _) ?_
    exact Errs.bind ih fun _ => Errs.ok _

theorem errs_orderRows (order : Order) (rows : List Dict) :
    Errs Exc.Plain (orderRows rt.lang order rows) := by
  refine Errs.bind (Errs.foldlM (fun _ _ => errs_insertRow (fun a b => ?_) _ _ _) _ _) fun _ =>
    Errs.ok _
  cases order.desc with
  | true => exact hrt.lt b a
  | false => exact hrt.lt a b

theorem errs_applyPredicate (rows : List Dict) (predicate : Option (List (String × String × Json)))
    (order : Option Order) (limit : Option Nat) :
    Errs Exc.Plain (applyPredicate rt.lang rows predicate order limit) := by
  unfold applyPredicate
  cases predicate with
  | none =>
    refine Errs.bind (Errs.ok rows) fun rows => ?_
    cases order with
    | none => exact Errs.ok _
    | some order => exact Errs.bind (errs_orderRows hrt order rows) fun _ => Errs.ok _
  | some predicate =>
    refine Errs.bind (errs_filterRows hrt predicate rows) fun rows => ?_
    cases order with
    | none => exact Errs.ok _
    | some order => exact Errs.bind (errs_orderRows hrt order rows) fun _ => Errs.ok _

theorem errs_predicateValues (s : Scope) (terms : List PredicateTerm) :
    Errs Exc.Plain (predicateValues rt s terms) := by
  induction terms with
  | nil => exact Errs.ok _
  | cons term terms ih =>
    exact Errs.bind (hrt.predicateValue _ _) fun _ => Errs.bind ih fun _ => Errs.ok _

/-! ### The effects -/

theorem raises_persist (entity key : String) (row : Stored) :
    Raises Exc.Sound (persist rt entity key row : M ρ χ ν Stored) := by
  refine Raises.bind (Raises.modify _) fun _ => Raises.bind ?_ fun _ => Raises.pure _
  exact raises_translated (Raises.zoom (hrt.persist _ _ _))

theorem raises_assignment (binding field expression : String) (aggFieldType : Option String) :
    Raises Exc.Sound (assignment rt call binding field expression aggFieldType) := by
  refine Raises.bind Raises.get fun s => ?_
  cases s.bindings[binding]? with
  | none => exact raises_fail nofun
  | some row =>
    refine Raises.bind (Raises.ofExcept fun e he => ?_) fun value => ?_
    · exact (hrt.assignmentValue _ _ _ _ e he).sound
    refine Raises.when (raises_fail nofun) fun _ => Raises.bind (Raises.modify _) fun _ => ?_
    cases (rt.doc.entityIdForBinding binding).orElse fun _ => row.entityId with
    | none => exact raises_fail nofun
    | some entity =>
      refine Raises.bind (Raises.modify _) fun _ => Raises.bind (Raises.modify _) fun _ => ?_
      refine Raises.bind (raises_persist hrt _ _ _) fun _ => ?_
      refine Raises.bind (Raises.modify _) fun _ => Raises.bind (Raises.modify _) fun _ => ?_
      exact Raises.bind (Raises.modify _) fun _ => Raises.modify _

theorem raises_query (entity : String) (predicate : List PredicateTerm) (order : Option Order)
    (limit : Option Nat) : Raises Exc.Sound (query rt call entity predicate order limit) := by
  have hrows : ∀ predicate, Raises Exc.Plain (queryRows rt entity predicate order limit) := by
    intro predicate
    refine Raises.ite (Raises.zoom (hrt.query _)) ?_
    cases hquery : rt.repo.queryPredicate with
    | some query => exact Raises.zoom (hrt.queryPredicate query hquery _ _ _ _)
    | none =>
      refine Raises.bind (Raises.zoom (hrt.query _)) fun rows => ?_
      refine Raises.bind (Raises.ofExcept (errs_applyPredicate hrt _ _ _ _)) fun _ => ?_
      exact Raises.bind (Raises.modify _) fun _ => Raises.pure _
  refine Raises.bind Raises.get fun s => Raises.bind (Raises.ofExcept fun e he => ?_) fun values => ?_
  · exact (errs_predicateValues hrt _ _ e he).sound
  refine Raises.bind (Raises.modify _) fun _ => ?_
  refine Raises.bind (raises_translated (hrows _)) fun rows => ?_
  cases rt.doc.entity? entity with
  | none => exact Raises.pure _
  | some e => exact Raises.modify _

theorem raises_fetch (entity : String) (op : Operation) (key : String) (cached : Bool) :
    Raises Exc.Sound (fetch rt call entity op key cached) := by
  have hexecute : Raises Exc.Sound (translated (onRepo (rt.repo.execute entity op key)) : M ρ χ ν Found) :=
    raises_translated (Raises.zoom (hrt.execute _ _ _))
  have hset : ∀ now row ttl, Raises Exc.Sound (orOutage (do
      onCache (rt.cache.set now key row ttl)
      modify fun s => { s with readThroughWrites := s.readThroughWrites ++ [key] }) (pure ()) :
        M ρ χ ν Unit) := by
    intro now row ttl
    refine raises_orOutage ?_ (Raises.pure _)
    exact Raises.bind (Raises.mono (Raises.zoom (hrt.cacheSet _ _ _ _)) fun _ => Exc.Plain.sound) fun _ =>
      Raises.modify _
  refine Raises.bind Raises.get fun s => ?_
  cases cached with
  | false =>
    refine Raises.bind (Raises.pure none) fun hit => ?_
    cases hit with
    | some row => exact Raises.bind (Raises.modify _) fun _ => Raises.pure _
    | none =>
      refine Raises.bind hexecute fun found => ?_
      cases found.strip with
      | dict row => exact Raises.pure _
      | none => exact Raises.pure _
      | other => exact Raises.pure _
  | true =>
    refine Raises.bind (raises_orOutage (Raises.mono (Raises.zoom (hrt.cacheGet _ _))
      fun _ => Exc.Plain.sound) (Raises.pure _)) fun hit => ?_
    cases hit with
    | some row => exact Raises.bind (Raises.modify _) fun _ => Raises.pure _
    | none =>
      refine Raises.bind hexecute fun found => ?_
      cases found.strip with
      | none => exact Raises.pure _
      | other => exact Raises.pure _
      | dict row =>
        exact Raises.bind (hset _ _ _) fun _ => Raises.bind (Raises.modify _) fun _ => Raises.pure _

theorem raises_createRow (entity key : String) (fills : Dict) (result : Option String) :
    Raises Exc.Sound (createRow rt call entity key fills result) := by
  have hpersist := raises_persist hrt entity key
    { data := seededRow call (rt.doc.entity? entity) fills key }
  cases result with
  | none => exact Raises.ite (Raises.bind hpersist fun _ => Raises.pure _) (Raises.pure _)
  | some name =>
    exact Raises.ite (Raises.bind hpersist fun _ => Raises.modify _) (Raises.modify _)

omit hrt in
theorem raises_notFound (entity : String) (op : Operation) :
    Raises Exc.Sound (notFound entity op : M ρ χ ν α) := by
  refine Raises.bind (Raises.modify _) fun _ => raises_fail fun k hk => ?_
  rw [← Option.some.inj hk]
  decide

omit hrt in
theorem sound_addressedKey (entity : String) (lookup : Option Ref) (fills : Dict) (s : Scope) :
    Errs Exc.Sound (addressedKey rt entity lookup fills s) := by
  unfold addressedKey
  cases fills["id"]? with
  | some id => exact Errs.ok _
  | none =>
    unfold resolveLookupKey
    cases lookup with
    | none => exact Errs.ok _
    | some ref => exact Errs.ite (Errs.error (sound_plain _)) (Errs.ok _)

theorem raises_repositoryCall (entity : String) (op : Operation) (lookup : Option Ref)
    (cached : Bool) (result : Option String) :
    Raises Exc.Sound (repositoryCall rt call entity op lookup cached result) := by
  unfold repositoryCall
  dsimp only
  refine Raises.check (sound_of_own fun k hk => ?_) (Raises.bind Raises.get fun s => ?_)
  · rw [← Option.some.inj hk]
    decide
  refine Raises.bind (Raises.ofExcept (sound_addressedKey _ _ _ _)) fun key => ?_
  refine Raises.bind (Raises.modify _) fun _ => ?_
  refine Raises.bind (raises_fetch hrt entity op key cached) fun found => ?_
  cases op with
  | read =>
    cases found with
    | none => exact raises_notFound _ _
    | dict row => exact Raises.modify _
    | other => exact Raises.pure _
  | create => exact raises_createRow hrt _ _ _ _
  | update =>
    refine Raises.bind (Raises.modify _) fun _ => ?_
    exact Raises.ite (raises_notFound _ _) (Raises.pure _)
  | delete =>
    refine Raises.bind (Raises.modify _) fun _ => ?_
    exact Raises.ite (raises_notFound _ _) (Raises.pure _)

theorem raises_cacheAccess (op : CacheOperation) (key : List String) :
    Raises Exc.Sound (cacheAccess rt call op key) := by
  refine Raises.bind Raises.get fun s => raises_translated ?_
  cases op with
  | set => exact Raises.zoom (hrt.cacheSet _ _ _ _)
  | get => exact Raises.bind (Raises.zoom (hrt.cacheGet _ _)) fun _ => Raises.pure _
  | invalidate => exact Raises.zoom (hrt.cacheInvalidate _)

theorem raises_eventEmit (node : String) (event : Option String) (payloadMap : List MapEntry) :
    Raises Exc.Sound (eventEmit rt call node event payloadMap) := by
  cases event with
  | none => exact raises_fail nofun
  | some event =>
    unfold eventEmit
    refine Raises.check (sound_plain _) (Raises.bind Raises.get fun s => ?_)
    refine Raises.bind (raises_translated (Raises.zoom (hrt.recordEmission _))) fun _ => ?_
    exact Raises.bind (Raises.modify _) fun _ => Raises.modify _

omit hrt in
theorem sound_pathArgValues (node : String) (s : Scope) (refs : List Ref) :
    Errs Exc.Sound (pathArgValues rt node s refs) := by
  induction refs with
  | nil => exact Errs.ok _
  | cons ref refs ih =>
    unfold pathArgValues
    dsimp only
    split
    · exact Errs.bind (Errs.error (sound_plain _)) fun _ => Errs.bind ih fun _ => Errs.ok _
    · exact Errs.bind ih fun _ => Errs.ok _

theorem raises_networkCall (node target : String) (pathArgs : List Ref) (bodyMap : List MapEntry)
    (result : Option String) :
    Coro.Raises Exc.Sound (networkCall rt call node target pathArgs bodyMap result) := by
  have hprepare : Raises Exc.Sound (prepareCall rt call node target pathArgs bodyMap) := by
    refine Raises.bind Raises.get fun s => ?_
    exact Raises.bind (Raises.ofExcept (sound_pathArgValues _ _ _)) fun _ => Raises.pure _
  have hsend : ∀ request remaining bound,
      Raises Exc.Sound (sendCall rt request remaining bound) := by
    intro request remaining bound
    refine Raises.bind (Raises.modify _) fun _ => Raises.ite ?_ ?_
    · exact raises_orOutage (Raises.mono (Raises.zoom (hrt.network _ _)) fun _ => Exc.Plain.sound)
        (Raises.pure _)
    · exact raises_translated (Raises.zoom (hrt.network _ _))
  refine Coro.Raises.bind (Coro.Raises.lift hprepare) fun request => ?_
  refine Coro.Raises.bind (show Coro.Raises Exc.Sound (.pause (.ret ())) from trivial) fun _ => ?_
  refine Coro.Raises.bind (Coro.Raises.lift (hsend _ _ _)) fun answer => ?_
  refine Coro.Raises.bind (show Coro.Raises Exc.Sound (.pause (.ret ())) from trivial) fun _ => ?_
  cases result with
  | none => exact trivial
  | some name => exact Coro.Raises.lift (Raises.modify _)

theorem raises_atomicEffect (e : Effect) : Raises Exc.Sound (atomicEffect rt call e) := by
  cases e with
  | networkCall id target pathArgs bodyMap result => exact Raises.pure _
  | assignment id binding field expression aggFieldType => exact raises_assignment hrt _ _ _ _
  | validation id rule target =>
    exact Raises.ofExcept fun e he => (hrt.validate _ _ _ e he).sound
  | query id entity predicate order limit => exact raises_query hrt _ _ _ _
  | repositoryCall id entity op lookup cached result => exact raises_repositoryCall hrt _ _ _ _ _
  | cacheAccess id op key => exact raises_cacheAccess hrt _ _
  | authorization id requirement => exact Raises.pure _
  | eventEmit id event payloadMap => exact raises_eventEmit hrt _ _ _
  | response id refs aggTerms listTerm => exact Raises.pure _
  | annotated id template refs => exact Raises.pure _
  | rejection id code =>
    refine raises_fail fun k hk => ?_
    rw [← Option.some.inj hk]
    decide

/-- Whatever an effect raises says what it comes from. -/
theorem raises_runEffect (e : Effect) : Coro.Raises Exc.Sound (runEffect rt call e) := by
  have hend : Coro.Raises Exc.Sound (Coro.lift (modify (Exec.advance 1)) : Coro (Exec ρ χ ν) Exc Unit) :=
    Coro.Raises.lift (Raises.modify _)
  have hlift : Coro.Raises Exc.Sound
      (do Coro.lift (atomicEffect rt call e); Coro.lift (modify (Exec.advance 1))) :=
    Coro.Raises.bind (Coro.Raises.lift (raises_atomicEffect hrt e)) fun _ => hend
  cases e with
  | networkCall id target pathArgs bodyMap result =>
    exact Coro.Raises.bind (raises_networkCall hrt _ _ _ _ _) fun _ => hend
  | _ => exact hlift

/-! ### Steps -/

theorem raises_runStep (step : Step) : Coro.Raises Exc.Sound (runStep rt call step) := by
  refine Coro.Raises.bind (Coro.Raises.lift (Raises.bind Raises.get fun s => ?_)) fun _ => ?_
  · refine Raises.ite (raises_fail fun k hk => ?_) (Raises.pure _)
    rw [← Option.some.inj hk]
    decide
  · exact Coro.Raises.bind (Coro.Raises.forM fun e _ => raises_runEffect hrt e) fun _ =>
      Coro.Raises.lift (Raises.modify _)

/-- The error, if any, says what it comes from. -/
def SoundError (error : Option RunError) : Prop := ∀ e, error = some e → e.Sound

omit hrt in
theorem soundError_none : SoundError none := fun _ h => nomatch h

theorem sound_attempt (step : Step) :
    Coro.Spec (fun _ => True) SoundError (fun _ => True) (attempt rt call step) := by
  refine Coro.Spec.tryCatch (E := Exc.Sound) (fun e he => ?_) ?_
  · cases e with
    | run e =>
      intro e' he'
      rw [← Option.some.inj he']
      exact he e rfl
    | driver cls message => exact trivial
    | other cls => exact trivial
  · refine Coro.Spec.bind (Q := fun _ => True) (fun _ _ => ?_) (raises_runStep hrt step)
    exact soundError_none

theorem sound_attemptLoop (step : Step) (cancelled : Exec ρ χ ν → Bool) (rounds begun : Nat)
    {last : Option RunError} (hlast : SoundError last) :
    Coro.Spec (fun _ => True) (fun ended => SoundError ended.2) (fun _ => True)
      (attemptLoop rt call cancelled step rounds begun last) := by
  have hlift : ∀ {β : Type} (m : M ρ χ ν β),
      Coro.Spec (fun _ => True) (fun _ => True) (fun _ => True) (Coro.lift m) := fun m =>
    Coro.Raises.lift ((Triple.any m).mono (fun _ => id) (fun _ _ => id) fun _ _ => id)
  have hpause : Coro.Spec (fun _ => True) (fun _ => True) (fun _ => True)
      (.pause (.ret ()) : Coro (Exec ρ χ ν) Exc Unit) := trivial
  induction rounds generalizing begun last with
  | zero => exact hlast
  | succ rounds ih =>
    refine Coro.Spec.bind (fun stop _ => ?_) (hlift _)
    cases stop with
    | true => exact hlast
    | false =>
      refine Coro.Spec.bind (fun _ _ => ?_) hpause
      refine Coro.Spec.bind (Q := SoundError) (fun result hresult => ?_) (sound_attempt hrt step)
      cases result with
      | none => exact soundError_none
      | some error =>
        refine Coro.Spec.bind (fun _ _ => ?_) hpause
        refine Coro.Spec.bind (fun again _ => ?_) (hlift _)
        cases again with
        | false => exact hresult
        | true =>
          refine Coro.Spec.bind (fun _ _ => ?_) hpause
          refine Coro.Spec.bind (fun _ _ => ?_) (hlift _)
          exact Coro.Spec.bind (fun _ _ => ih _ hresult) hpause

omit hrt in
/-- A step without an error contributes none. -/
theorem error_foldl_contribute (scope : Scope) (step : String) (effects : List Effect) (o : Outcome) :
    (effects.foldl (contribute rt scope step) o).error = o.error := by
  refine List.foldlRecOn (motive := (Outcome.error · = o.error)) effects _ rfl fun o' h e _ => ?_
  rw [← h]
  cases e <;> rfl

/-- The error that a step has ended with says what it comes from. -/
theorem sound_executeStep (step : Step) (cancelled : Exec ρ χ ν → Bool) :
    Coro.Spec (fun _ => True) (fun o => SoundError o.error) (fun _ => True)
      (executeStep rt call cancelled step) := by
  refine Coro.Spec.bind (fun ended hended => ?_)
    (sound_attemptLoop hrt step cancelled maxStepAttempts 0 soundError_none)
  refine Coro.Spec.bind (Q := fun _ => True) (fun _ _ => ?_) trivial
  obtain ⟨attempts, error⟩ := ended
  refine Coro.Spec.lift ?_
  cases error with
  | none => exact Triple.bind (Q := fun _ _ => True) (Triple.get fun _ => id) fun s =>
      Triple.pure fun _ h => ⟨h, by rw [error_foldl_contribute]; exact soundError_none⟩
  | some error =>
    exact Triple.bind (Q := fun _ _ => True) (Triple.modify fun _ => id) fun _ =>
      Triple.pure fun _ h => ⟨h, hended⟩

/-! ### The main loop -/

theorem keeps_soundFailure_sequential (under : List Nat) (step : Step) :
    Keeps Run.SoundFailure (runSequentialStep rt call under step) := by
  refine Triple.bind (Q := fun o r => SoundError o.error ∧ r.SoundFailure) ?_ fun o => ?_
  · refine Triple.zoom fun r hr => fun s _ => ?_
    refine Ends.mono ((sound_executeStep hrt step _).run s trivial) (fun _ _ ho => ⟨ho.2, hr⟩)
      fun _ _ _ => hr
  refine Triple.assume fun ho => Keeps.bind (Keeps.modify fun r hr => hr) fun _ => ?_
  cases herror : o.error with
  | some e =>
    refine Keeps.bind (Keeps.modify fun r _ => ?_) fun _ => Keeps.pure _
    exact soundFailure_failWith ((ho e herror).failure step.name) r
  | none =>
    refine Keeps.get.bind fun r => Keeps.ite ?_ (Keeps.pure _)
    exact Keeps.bind (Keeps.modify fun r _ => soundFailure_exceedDeadline rt call step r) fun _ =>
      Keeps.pure _

omit hrt in
/-- The failure of a block is the error of one of its workers. -/
theorem mem_of_earliestFailure {l : List (Step × WorkerEnd)} {start : Nat} {step : Step}
    {e : RunError} (h : earliestFailure l = some (start, step, e)) :
    ∃ o, (step, .done start o) ∈ l ∧ o.error = some e := by
  induction l with
  | nil => exact nomatch h
  | cons p l ih =>
    have hrest : earliestFailure l = some (start, step, e) →
        ∃ o, (step, .done start o) ∈ p :: l ∧ o.error = some e := by
      intro hl
      obtain ⟨o, ho, he⟩ := ih hl
      exact ⟨o, List.mem_cons_of_mem p ho, he⟩
    obtain ⟨step', ended⟩ := p
    rcases ended with ⟨start', attempts, _ | error, refs, terms, notes⟩ | _ | _
    · exact hrest h
    · have hself : (start', step', error) = (start, step, e) →
          ∃ o, (step, .done start o) ∈ (step', .done start' ⟨attempts, some error, refs, terms, notes⟩) :: l ∧
            o.error = some e := by
        intro heq
        obtain ⟨rfl, rfl, rfl⟩ := heq
        exact ⟨_, List.mem_cons_self, rfl⟩
      rw [earliestFailure] at h
      cases hl : earliestFailure l with
      | none =>
        rw [hl] at h
        exact hself (Option.some.inj h)
      | some found =>
        rw [hl] at h
        dsimp only at h
        split at h
        · exact hrest (hl.trans h)
        · exact hself (Option.some.inj h)
    · exact hrest h
    · exact hrest h

theorem soundFailure_join (under : List Nat) (steps : List Step) (moves : List Move) (r : Run ρ χ ν)
    (hr : r.SoundFailure) :
    (r.join under steps (runWorkers rt call steps moves r.exec).2
      (runWorkers rt call steps moves r.exec).1).SoundFailure := by
  have hdone : ∀ start outcome, .done start outcome ∈ (runWorkers rt call steps moves r.exec).2 →
      SoundError outcome.error :=
    (runWorkers_meets (J := fun _ => True) (fun _ _ _ => trivial)
      (fun step _ => sound_executeStep hrt step Exec.cancelEvent) moves trivial).2
  unfold Run.join
  split
  next start step e heq =>
    obtain ⟨o, ho, herror⟩ := mem_of_earliestFailure heq
    exact soundFailure_failWith ((hdone start o (List.of_mem_zip ho).2 e herror).failure step.name) _
  next heq =>
    intro f hf
    rw [(recordOutcomes_fields _ under _ _).2.2] at hf
    exact hr f hf

theorem soundFailure_bodyInvariant (call : Call) (declared : List Step) :
    BodyInvariant rt call declared Run.SoundFailure where
  log _ _ _ _ hr := hr
  sequential step _ under := keeps_soundFailure_sequential hrt under step
  block steps _ _ schedules under := by
    refine Triple.bind (Q := fun r r' => r = r' ∧ r'.SoundFailure) (Triple.get fun r hr => ⟨rfl, hr⟩)
      fun r => ?_
    refine Triple.bind (Q := fun _ => Run.SoundFailure) (Triple.modify fun r' hr' => ?_) fun _ =>
      Keeps.ite (Keeps.pure _) ?_
    · rw [hr'.1]
      exact soundFailure_join hrt under steps _ r' hr'.2
    · cases steps.getLast? with
      | none => exact Keeps.pure _
      | some last =>
        refine Keeps.get.bind fun r => Keeps.ite ?_ (Keeps.pure _)
        exact Keeps.bind (Keeps.modify fun r _ => soundFailure_exceedDeadline rt call last r) fun _ =>
          Keeps.pure _
  evaluated _ _ hr := hr
  repeats _ _ hr := hr
  skipped _ _ hr := hr

/-! ### The terms of the response -/

theorem errs_respondTerms (rowsets : RowSets) (term : ResponseTerm) (response : Dict) :
    Errs Exc.Plain (respondTerms rt rowsets term response) := by
  have haggregate : ∀ terms response, Errs Exc.Plain (aggregateTerms rt rowsets terms response) := by
    intro terms
    induction terms with
    | nil => exact fun _ => Errs.ok _
    | cons term terms ih => exact fun response => Errs.bind (hrt.aggregate _ _ _) fun _ => ih _
  refine Errs.bind (haggregate _ _) fun response => ?_
  cases term.listTerm with
  | none => exact Errs.ok _
  | some binding => exact Errs.ok _

theorem keeps_soundFailure_evaluateTerms (terms : List ResponseTerm) (response : Dict) :
    Keeps Run.SoundFailure (evaluateTerms rt terms response : L ρ χ ν (Option Dict)) := by
  induction terms generalizing response with
  | nil => exact Keeps.pure _
  | cons term terms ih =>
    refine Keeps.get.bind fun r => ?_
    cases hterm : respondTerms rt r.exec.rowsets term response with
    | ok response => exact ih response
    | error e =>
      have hplain := errs_respondTerms hrt _ _ _ e hterm
      cases e with
      | run e =>
        refine Keeps.bind (Keeps.modify fun r _ => ?_) fun _ =>
          Keeps.bind (Keeps.modify fun _ => id) fun _ => Keeps.pure _
        -- an error without a `DriverError` gives the failure its own kind
        refine soundFailure_failWith ⟨fun cls hcause => ?_, fun _ => (hplain.sound e rfl).kind⟩ r
        exact nomatch (hplain e rfl).1.symm.trans hcause
      | driver cls message => exact Keeps.throw _
      | other cls => exact Keeps.throw _

/-! ### The run -/

/-- **The failure of a run says what it comes from.** -/
theorem soundFailure_runWorkflow {workflow : String} {payload : Dict} {fill : FillSource → String}
    {schedules : Nat → List Move} {s : Exec ρ χ ν} {result : Result} {t : Session ρ χ ν}
    (h : runWorkflow rt workflow payload fill schedules s = .ok result t) {f : Failure}
    (hf : result.failure = some f) : f.Sound := by
  have hI : ExecInvariant (Run.SoundFailure : Run ρ χ ν → Prop) := { exec := fun _ _ hr => hr }
  have hterms : Keeps Run.SoundFailure (termResponse rt : L ρ χ ν (Option Dict)) :=
    Keeps.get.bind fun _ => Keeps.ite (Keeps.pure _) (keeps_soundFailure_evaluateTerms hrt _ _)
  have hrun := hI.of_runWorkflow hterms (fun call _ => ?_) h
  · obtain ⟨hsound, terms, hresult⟩ := hrun
    rw [hresult] at hf
    exact hsound f hf
  · have hbody := (soundFailure_bodyInvariant hrt call call.workflow.steps).keeps_runBody
      schedules (fun _ => id) call.workflow.distinct
    refine hbody.mono (fun r hr => ?_) (fun _ _ => id) fun _ _ _ => trivial
    rw [hr]
    exact fun f hf => nomatch hf

end Effects

end Lnpl.Interp
