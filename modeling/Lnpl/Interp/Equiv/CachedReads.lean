import Lnpl.Interp.Equiv.ReadThrough

/-!
# Cached reads from run to run

Between two runs the cache holds no row of its own: every entry under a row key was committed at
some earlier moment, or its invalidation has met a cache outage (`AtRest`).  A run starts from
there, keeps its entries accounted for while its transaction is open (`ReadThrough`), and gets back
there when a commit or a rollback returns: the keys that this leaves pending are invalidated one by
one (`triple_invalidateAll`).

**`cachedReads_committed`** puts the runs together, for every sequence of requests.
-/

namespace Lnpl.Interp

open Lnpl.Lib

variable {ρ χ ν : Type}

/-! ### Between two runs -/

/-- What holds once a transaction is over, where the keys `pending` are still to be invalidated. -/
structure AtRest (V : RepoView ρ) (holds : χ → String → Stored → Prop) (doc : Document)
    (Past : String → String → Dict → Prop) (pending : List String) (s : Exec ρ χ ν) : Prop where
  committed : ∀ e k row, V.committedRow s.repo e k = some row → Past e k row
  visible : V.visible s.repo = V.committed s.repo
  held : ∀ e k row, e ∈ doc.readThroughEntities → KeyOf e k → holds s.cache k row →
    Past e k row.data ∨ k ∈ s.outages ∨ k ∈ pending

/-- The cached reads of a run are accounted for. -/
def ReadsPast (Past : String → String → Dict → Prop) (s : Exec ρ χ ν) : Prop :=
  ∀ c ∈ s.cachedReads, Past c.entity c.key c.row ∨ c.own ∨ c.key ∈ s.outages

variable {rt : Runtime ρ χ ν} {call : Call} {V : RepoView ρ} {holds : χ → String → Stored → Prop}
  {doc : Document} {Past Past' : String → String → Dict → Prop} {pending : List String}
  {s s' : Exec ρ χ ν} {e k : String}

theorem AtRest.mono (h : AtRest V holds doc Past pending s)
    (hpast : ∀ e k row, Past e k row → Past' e k row) : AtRest V holds doc Past' pending s where
  committed e k row hrow := hpast e k row (h.committed e k row hrow)
  visible := h.visible
  held e k row he hk hrow := (h.held e k row he hk hrow).imp_left (hpast e k _)

theorem AtRest.frame (h : AtRest V holds doc Past pending s) (hrepo : s'.repo = s.repo)
    (hcache : s'.cache = s.cache) (houtages : s'.outages = s.outages) :
    AtRest V holds doc Past pending s' := by
  constructor
  · rw [hrepo]
    exact h.committed
  · rw [hrepo]
    exact h.visible
  · rw [hcache, houtages]
    exact h.held

variable {d : ρ} {t : Session ρ χ ν} {requests : Nat → Request} {s₀ : Exec ρ χ ν}

theorem AtRest.same (h : AtRest V holds doc Past pending s) (hd : V.Same s.repo d) :
    AtRest V holds doc Past pending { s with repo := d } where
  committed e k row hrow := by
    refine h.committed e k row ?_
    rw [← hrow, RepoView.committedRow, RepoView.committedRow, hd.committed]
  visible := by
    show V.visible d = V.committed d
    rw [hd.visible, hd.committed, h.visible]
  held := h.held

/-- A run that has neither written nor read. -/
theorem AtRest.readThrough (h : AtRest V holds doc Past [] s) (hreads : s.cachedReads = []) :
    ReadThrough V holds doc Past Nowhere s where
  committed := h.committed
  unwritten e k _ := by rw [h.visible]
  held e k row he hk hrow := (h.held e k row he hk hrow).imp_right (Or.imp_right (nomatch ·))
  reads c hc := by
    rw [hreads] at hc
    exact nomatch hc

/-! ### Pending keys -/

variable {F : ρ → String → String → Dict → Prop}

section

variable (hC : rt.cache.Honest holds)
include hC

/-- `_invalidate_read_through` takes its key off the pending ones, and never raises. -/
theorem triple_invalidateReadThrough (key : String) :
    Triple (fun s => AtRest V holds doc (F s.repo) (key :: pending) s)
      (invalidateReadThrough rt key : M ρ χ ν Unit)
      (fun _ s => AtRest V holds doc (F s.repo) pending s) fun _ _ => False := by
  refine Triple.tryCatch (E := fun exc s => (∃ cls message, exc = .driver cls message) ∧
    AtRest V holds doc (F s.repo) (key :: pending) s) ?_ fun exc => ?_
  · refine Triple.zoom_ends fun t ht => (hC.invalidate key t.cache).mono ?_ ?_
    · intro _ _ hgone
      refine ⟨ht.committed, ht.visible, fun e k row he hk hrow => ?_⟩
      obtain ⟨hrow, hne⟩ := hgone k row hrow
      refine (ht.held e k row he hk hrow).imp_right (Or.imp_right fun hpending => ?_)
      exact (List.mem_cons.mp hpending).resolve_left hne
    · rintro exc c' ⟨hexc, hless⟩
      refine ⟨hexc, ht.committed, ht.visible, fun e k row he hk hrow => ?_⟩
      exact ht.held e k row he hk (hless k row hrow)
  · intro s hs
    obtain ⟨⟨cls, message, rfl⟩, h⟩ := hs
    refine ⟨h.committed, h.visible, fun e k row he hk hrow => ?_⟩
    rcases h.held e k row he hk hrow with hpast | hout | hpending
    · exact Or.inl hpast
    · exact Or.inr (Or.inl (List.mem_append_left _ hout))
    · rcases List.mem_cons.mp hpending with rfl | hpending
      · exact Or.inr (Or.inl (List.mem_append_right _ List.mem_cons_self))
      · exact Or.inr (Or.inr hpending)

/-- All pending keys are invalidated, or their outage is on record. -/
theorem triple_invalidateAll (pending : List String) :
    Triple (fun s => AtRest V holds doc (F s.repo) pending s)
      (pending.forM (invalidateReadThrough rt) : M ρ χ ν PUnit)
      (fun _ s => AtRest V holds doc (F s.repo) [] s) fun _ _ => False := by
  induction pending with
  | nil => exact Triple.pure fun _ => id
  | cons key pending ih => exact Triple.bind (triple_invalidateReadThrough hC key) fun _ => ih

theorem triple_discardReadThroughWrites :
    Triple (fun s : Exec ρ χ ν => AtRest V holds doc (F s.repo) s.readThroughWrites s)
      (discardReadThroughWrites rt) (fun _ s => AtRest V holds doc (F s.repo) [] s) fun _ _ => False := by
  refine Triple.bind (Q := fun s t => AtRest V holds doc (F t.repo) s.readThroughWrites t)
    (Triple.get fun _ => id) fun s => ?_
  refine Triple.bind (triple_invalidateAll hC s.readThroughWrites) fun _ => ?_
  exact Triple.modify fun t h => ⟨h.committed, h.visible, h.held⟩

theorem triple_invalidateWrittenAfterCommit :
    Triple (fun s : Exec ρ χ ν => AtRest V holds doc (F s.repo) s.readThroughInvalidations s)
      (invalidateWrittenAfterCommit rt) (fun _ s => AtRest V holds doc (F s.repo) [] s) fun _ _ => False := by
  refine Triple.bind (Q := fun s t => AtRest V holds doc (F t.repo) s.readThroughInvalidations t)
    (Triple.get fun _ => id) fun s => ?_
  refine Triple.bind (triple_invalidateAll hC s.readThroughInvalidations) fun _ => ?_
  exact Triple.modify fun t h => ⟨h.committed, h.visible, h.held⟩

end

/-- Invalidating a key changes no cached read, and outages only come. -/
theorem keeps_reads_invalidateReadThrough (key : String) :
    Keeps (ReadsPast Past) (invalidateReadThrough rt key : M ρ χ ν Unit) := by
  have hcall : Keeps (ReadsPast Past) (onCache (rt.cache.invalidate key) : M ρ χ ν Unit) := by
    refine Keeps.zoom ?_ _
    exact fun _ _ => id
  refine keeps_orOutage hcall (Keeps.modify fun s h c hc => ?_)
  exact (h c hc).imp_right (Or.imp_right (List.mem_append_left _))

theorem keeps_reads_discardReadThroughWrites :
    Keeps (ReadsPast Past) (discardReadThroughWrites rt : M ρ χ ν Unit) := by
  refine Keeps.get.bind fun s => Keeps.bind (Keeps.forM fun key _ => ?_) fun _ => ?_
  · exact keeps_reads_invalidateReadThrough key
  · exact Keeps.modify fun _ => id

theorem keeps_reads_invalidateWrittenAfterCommit :
    Keeps (ReadsPast Past) (invalidateWrittenAfterCommit rt : M ρ χ ν Unit) := by
  refine Keeps.get.bind fun s => Keeps.bind (Keeps.forM fun key _ => ?_) fun _ => ?_
  · exact keeps_reads_invalidateReadThrough key
  · exact Keeps.modify fun _ => id

/-! ### The end of a transaction -/

/-- The rows of the past, and those that are committed now. -/
def OrNow (V : RepoView ρ) (Past : String → String → Dict → Prop) (d : ρ) (e k : String)
    (row : Dict) : Prop :=
  Past e k row ∨ V.committedRow d e k = some row

/-- A commit publishes the rows of the run; the keys it has written are pending. -/
theorem ReadThrough.commit (h : ReadThrough V holds doc Past Nowhere s)
    (hcommitted : V.committed d = V.visible s.repo) (hvisible : V.visible d = V.visible s.repo) :
    AtRest V holds doc (OrNow V Past d) s.readThroughInvalidations { s with repo := d } where
  committed _ _ _ := Or.inr
  visible := hvisible.trans hcommitted.symm
  held e k row he hk hrow := by
    rcases h.held e k row he hk hrow with hpast | hout | ⟨-, -, hkey | hno | hcur⟩
    · exact Or.inl (Or.inl hpast)
    · exact Or.inr (Or.inl hout)
    · exact Or.inr (Or.inr hkey)
    · exact hno.elim
    · refine Or.inl (Or.inr ?_)
      rw [RepoView.committedRow, hcommitted]
      exact hcur

/-- A rollback leaves the committed rows; the keys the run has put into the cache are pending. -/
theorem ReadThrough.rollback (h : ReadThrough V holds doc Past Nowhere s)
    (hcommitted : V.committed d = V.committed s.repo)
    (hvisible : V.visible d = V.committed s.repo) :
    AtRest V holds doc (OrNow V Past d) s.readThroughWrites { s with repo := d } where
  committed _ _ _ := Or.inr
  visible := hvisible.trans hcommitted.symm
  held e k row he hk hrow := by
    rcases h.held e k row he hk hrow with hpast | hout | ⟨-, hkey, -⟩
    · exact Or.inl (Or.inl hpast)
    · exact Or.inr (Or.inl hout)
    · exact Or.inr (Or.inr hkey)

/-! ### A run -/

/-- What a run leaves: its cached reads are accounted for, and the cache is settled again once the
transaction has been closed. -/
structure Leaves (V : RepoView ρ) (holds : χ → String → Stored → Prop) (doc : Document)
    (Past : String → String → Dict → Prop) (t : Session ρ χ ν) : Prop where
  reads : ReadsPast Past t.run.exec
  settled : t.closed → AtRest V holds doc (OrNow V Past t.run.exec.repo) [] t.run.exec

/-- The transaction of the run is open. -/
structure Open (V : RepoView ρ) (holds : χ → String → Stored → Prop) (doc : Document)
    (Past : String → String → Dict → Prop) (t : Session ρ χ ν) : Prop where
  boundary : t.boundary = [⟨.begin, true⟩]
  exec : ReadThrough V holds doc Past Nowhere t.run.exec

theorem Open.leaves (h : Open V holds doc Past t) :
    Leaves V holds doc Past t where
  reads := h.exec.reads
  settled hclosed := by
    unfold Session.closed at hclosed
    rw [h.boundary] at hclosed
    exact nomatch hclosed

theorem Leaves.frame {t' : Session ρ χ ν} (h : Leaves V holds doc Past t)
    (hboundary : t'.boundary = t.boundary) (hexec : t'.run.exec.kept = t.run.exec.kept) :
    Leaves V holds doc Past t' := by
  simp only [Exec.kept, Prod.mk.injEq] at hexec
  obtain ⟨hrepo, hcache, -, -, -, houtages, hreads⟩ := hexec
  constructor
  · unfold ReadsPast
    rw [hreads, houtages]
    exact h.reads
  · unfold Session.closed
    rw [hboundary, hrepo]
    exact fun hclosed => (h.settled hclosed).frame hrepo hcache houtages

/-- A call has closed the transaction and left keys to invalidate. -/
structure Closing (V : RepoView ρ) (holds : χ → String → Stored → Prop) (doc : Document)
    (Past : String → String → Dict → Prop) (pending : Exec ρ χ ν → List String)
    (t : Session ρ χ ν) : Prop where
  reads : ReadsPast Past t.run.exec
  settled : AtRest V holds doc (OrNow V Past t.run.exec.repo) (pending t.run.exec) t.run.exec

/-- A call that closes the transaction, if it returns. -/
theorem triple_closingCall {op : BoundaryOp} {pending : Exec ρ χ ν → List String}
    (hcall : ∀ s : Exec ρ χ ν, ReadThrough V holds doc Past Nowhere s →
      Ends (fun _ d => AtRest V holds doc (OrNow V Past d) (pending { s with repo := d })
        { s with repo := d }) (fun _ _ => True) (rt.repo.boundary op s.repo)) :
    Triple (Open V holds doc Past) (boundary rt op) (fun _ => Closing V holds doc Past pending)
      fun _ => Leaves V holds doc Past := by
  refine triple_boundary_ends fun t ht => Ends.mono (hcall t.run.exec ht.exec) ?_ ?_
  · exact fun _ d hsettled => ⟨ht.exec.reads, hsettled⟩
  · refine fun _ d _ => ⟨ht.exec.reads, fun hclosed => ?_⟩
    -- neither the begin nor the call that raised has closed the transaction
    have hclosed : Session.closed (t.called op false d) := hclosed
    rw [Session.closed, Session.called, ht.boundary] at hclosed
    simp at hclosed

/-- The keys that are left are invalidated. -/
theorem triple_closingKeys {m : M ρ χ ν Unit} {pending : Exec ρ χ ν → List String}
    (hm : Triple (fun s : Exec ρ χ ν => AtRest V holds doc (OrNow V Past s.repo) (pending s) s) m
      (fun _ s => AtRest V holds doc (OrNow V Past s.repo) [] s) fun _ _ => False)
    (hreads : Keeps (ReadsPast Past) m) :
    Triple (Closing V holds doc Past pending) (onRun (onExec m)) (fun _ => Leaves V holds doc Past)
      fun _ => Leaves V holds doc Past :=
  (triple_onRun (triple_onExec (hreads.and hm))).mono (fun _ h => ⟨h.reads, h.settled⟩)
    (fun _ _ h => ⟨h.1, fun _ => h.2⟩) fun _ _ h => h.2.elim

theorem triple_commit (hV : rt.repo.Transactional V) :
    Triple (Open V holds doc Past) (boundary rt .commit)
      (fun _ => Closing V holds doc Past Exec.readThroughInvalidations)
      fun _ => Leaves V holds doc Past :=
  triple_closingCall fun s hs =>
    Ends.mono (hV.commit s.repo) (fun _ _ h => hs.commit h.1 h.2) fun _ _ => id

theorem triple_rollback (hV : rt.repo.Transactional V) :
    Triple (Open V holds doc Past) (boundary rt .rollback)
      (fun _ => Closing V holds doc Past Exec.readThroughWrites)
      fun _ => Leaves V holds doc Past :=
  triple_closingCall fun s hs =>
    Ends.mono (hV.rollback s.repo) (fun _ _ h => hs.rollback h.1 h.2) fun _ _ => id

theorem triple_discarded (hC : rt.cache.Honest holds) :
    Triple (Closing V holds doc Past Exec.readThroughWrites)
      (onRun (onExec (discardReadThroughWrites rt))) (fun _ => Leaves V holds doc Past)
      fun _ => Leaves V holds doc Past :=
  triple_closingKeys (triple_discardReadThroughWrites hC) keeps_reads_discardReadThroughWrites

theorem leaves_closeBracket (hV : rt.repo.Transactional V) (hC : rt.cache.Honest holds) :
    Triple (Open V holds doc Past) (closeBracket rt call) (fun _ => Leaves V holds doc Past)
      fun _ => Leaves V holds doc Past := by
  refine Triple.bind (Q := fun _ => Open V holds doc Past) (Triple.get fun _ => id) fun t => ?_
  refine Triple.ite (fun _ => ?_) fun _ => ?_
  · exact Triple.bind (triple_commit hV) fun _ => triple_closingKeys
      (triple_invalidateWrittenAfterCommit hC) keeps_reads_invalidateWrittenAfterCommit
  · refine Triple.bind (triple_rollback hV) fun _ => Triple.bind (triple_discarded hC) fun _ => ?_
    refine Triple.zoom fun t ht => Triple.ite (fun _ => Triple.modify fun r hr => ?_)
      fun _ => Triple.pure fun r hr => ?_
    · subst hr
      exact ht.frame rfl rfl
    · subst hr
      exact ht

/-! ### From the start of a run to its end -/

/-- The steps of a workflow of the document are steps of the document. -/
theorem effects_of_workflow {wf : Workflow} (hwf : wf ∈ rt.doc.workflows) :
    ∀ step ∈ wf.body.flatMap Item.steps, ∀ e ∈ step.effects, e ∈ rt.doc.effects := by
  intro step hstep e he
  exact List.mem_flatMap.mpr ⟨wf, hwf, List.mem_flatMap.mpr ⟨step, hstep, he⟩⟩

/-- What keeps the entries accounted for leaves the transaction open. -/
theorem keeps_open {α : Type} {m : L ρ χ ν α}
    (h : Keeps (fun r : Run ρ χ ν => ReadThrough V holds doc Past Nowhere r.exec) m) :
    Keeps (Open V holds doc Past) (onRun m) := by
  refine Triple.zoom_ends fun t ht => (h t.run ht.exec).mono ?_ ?_
  · exact fun _ _ hr => ⟨ht.boundary, hr⟩
  · exact fun _ _ hr => ⟨ht.boundary, hr⟩

section

variable (hV : rt.repo.Transactional V)
include hV

theorem leaves_escape (hC : rt.cache.Honest holds) (exc : Exc) :
    Triple (Open V holds doc Past) (escape rt exc : W ρ χ ν Flow)
      (fun _ => Open V holds doc Past) fun _ => Leaves V holds doc Past := by
  refine Triple.ite (fun _ => ?_) fun _ => Triple.throw fun _ => Open.leaves
  refine Triple.bind (triple_rollback hV) fun _ => Triple.bind (triple_discarded hC) fun _ => ?_
  exact Triple.throw fun _ => id

theorem leaves_runInside (hC : rt.cache.Honest holds) (hdoc : rt.doc.KeysLowered)
    (hwf : call.workflow ∈ rt.doc.workflows) (schedules : Nat → List Move) :
    Triple (Open V holds rt.doc Past) (runInside rt call schedules)
      (fun _ => Open V holds rt.doc Past) fun _ => Leaves V holds rt.doc Past := by
  have heffect : EffectInvariant rt call call.workflow.steps
      (ReadThrough V holds rt.doc Past Nowhere) :=
    effectInvariant_readThrough hV hC hdoc (effects_of_workflow hwf)
  have hloop := heffect.loopInvariant
  have hbody := keeps_open (hloop.bodyInvariant.keeps_runBody schedules (fun _ => id) call.workflow.distinct)
  refine Triple.bind (Triple.tryCatch hbody fun exc => leaves_escape hV hC exc) fun _ => ?_
  exact (keeps_open (hloop.toFailInvariant.keeps_termResponse)).mono (fun _ => id) (fun _ _ => id)
    fun _ _ => Open.leaves

theorem leaves_runCall (hC : rt.cache.Honest holds) (hdoc : rt.doc.KeysLowered)
    (hwf : call.workflow ∈ rt.doc.workflows) (schedules : Nat → List Move) :
    Triple (fun t => t.boundary = [] ∧ t.run.exec.cachedReads = [] ∧
        AtRest V holds rt.doc Past [] t.run.exec)
      (runCall rt call schedules) (fun _ => Leaves V holds rt.doc Past)
      fun _ => Leaves V holds rt.doc Past := by
  refine Triple.bind (Q := fun _ t => t.boundary = [] ∧ t.run.exec.cachedReads = [] ∧
    AtRest V holds rt.doc Past [] t.run.exec) ?_ fun _ => ?_
  · refine Triple.zoom fun t ht => Triple.zoom fun r hr => Triple.modify fun s hs => ?_
    subst hr hs
    exact ⟨ht.1, ht.2.1, ht.2.2.frame rfl rfl rfl⟩
  · refine Triple.bind (Q := fun _ => Open V holds rt.doc Past) ?_ fun _ => ?_
    · refine triple_boundary_ends fun t ht => Ends.mono (hV.begin t.run.exec.repo) ?_ ?_
      · rintro _ d hd
        refine ⟨?_, (ht.2.2.readThrough ht.2.1).same hd⟩
        show t.boundary ++ _ = _
        rw [ht.1]
        rfl
      · refine fun _ d hd => ⟨?_, fun _ => (ht.2.2.mono fun _ _ _ => Or.inl).same hd⟩
        exact ((ht.2.2.readThrough ht.2.1).same hd).reads
    · refine Triple.bind (leaves_runInside hV hC hdoc hwf schedules) fun terms => ?_
      refine Triple.bind (leaves_closeBracket hV hC) fun _ => ?_
      exact Triple.bind (Q := fun _ => Leaves V holds rt.doc Past) (Triple.get fun _ => id)
        fun _ => Triple.pure fun _ => id

end

/-- What one run of any workflow leaves, started from a settled cache. -/
theorem runWorkflow_leaves (rt : Runtime ρ χ ν) (hV : rt.repo.Transactional V) (hC : rt.cache.Honest holds)
    (hdoc : rt.doc.KeysLowered) (h : AtRest V holds rt.doc Past [] s) (id : String)
    (payload : Dict) (fill : FillSource → String) (schedules : Nat → List Move) :
    Leaves V holds rt.doc Past
      (EStateM.lastState (runWorkflow rt id payload fill schedules s)) := by
  unfold runWorkflow
  cases hwf : rt.doc.workflows.find? fun wf => wf.id = id with
  | none => exact ⟨nofun, fun _ => (h.mono fun _ _ _ => Or.inl).frame rfl rfl rfl⟩
  | some wf =>
    have hmem : wf ∈ rt.doc.workflows := List.mem_of_find?_eq_some hwf
    exact (leaves_runCall hV hC hdoc hmem schedules).final ⟨rfl, rfl, h.frame rfl rfl rfl⟩

/-- The state between two runs, once all runs before have closed their transactions. -/
theorem atRest_before (hV : rt.repo.Transactional V) (hC : rt.cache.Honest holds)
    (hdoc : rt.doc.KeysLowered) (hvisible : V.visible s₀.repo = V.committed s₀.repo)
    (hcache : ∀ e ∈ rt.doc.readThroughEntities, ∀ k, KeyOf e k → ∀ row, holds s₀.cache k row →
      V.committedRow s₀.repo e k = some row.data) (n : Nat)
    (hclosed : ∀ i < n, (sessionOf rt requests s₀ i).closed) :
    AtRest V holds rt.doc (CommittedBy rt V requests s₀ n) [] (before rt requests s₀ n) := by
  induction n with
  | zero =>
    refine ⟨fun e k row hrow => ⟨0, Nat.le_refl 0, hrow⟩, hvisible, fun e k row he hk hrow => ?_⟩
    exact Or.inl ⟨0, Nat.le_refl 0, hcache e he k hk row hrow⟩
  | succ n ih =>
    have hbefore := ih fun i hi => hclosed i (Nat.lt_succ_of_lt hi)
    have hleaves := runWorkflow_leaves { rt with caller := (requests n).caller } hV hC hdoc
      hbefore (requests n).workflow (requests n).payload (requests n).fill (requests n).schedules
    refine (hleaves.settled (hclosed n (Nat.lt_succ_self n))).mono fun e k row hrow => ?_
    rcases hrow with ⟨j, hj, hrow⟩ | hnow
    · exact ⟨j, Nat.le_succ_of_le hj, hrow⟩
    · exact ⟨n + 1, Nat.le_refl _, hnow⟩

/-- **Cached reads**: over drivers that keep their contracts, and from run to run, a `cached` read
returns a row that was committed at some earlier moment, or one under a key that the run itself has
written, or one under a key whose invalidation has met a cache outage; and a run that has closed
its transaction leaves no other rows in the cache. -/
theorem cachedReads_committed (hV : rt.repo.Transactional V) (hC : rt.cache.Honest holds)
    (hdoc : rt.doc.KeysLowered) (requests : Nat → Request) (s₀ : Exec ρ χ ν)
    (hvisible : V.visible s₀.repo = V.committed s₀.repo)
    (hcache : ∀ e ∈ rt.doc.readThroughEntities, ∀ k, KeyOf e k → ∀ row, holds s₀.cache k row →
      V.committedRow s₀.repo e k = some row.data)
    (n : Nat) (hclosed : ∀ i < n, (sessionOf rt requests s₀ i).closed) :
    (∀ c ∈ (sessionOf rt requests s₀ n).run.exec.cachedReads,
        CommittedBy rt V requests s₀ n c.entity c.key c.row ∨ c.own ∨
          c.key ∈ (sessionOf rt requests s₀ n).run.exec.outages) ∧
      ((sessionOf rt requests s₀ n).closed → ∀ e ∈ rt.doc.readThroughEntities, ∀ k, KeyOf e k →
        ∀ row, holds (sessionOf rt requests s₀ n).run.exec.cache k row →
          CommittedBy rt V requests s₀ (n + 1) e k row.data ∨
            k ∈ (sessionOf rt requests s₀ n).run.exec.outages) := by
  have hbefore := atRest_before hV hC hdoc hvisible hcache n hclosed
  have hleaves := runWorkflow_leaves { rt with caller := (requests n).caller } hV hC hdoc
    hbefore (requests n).workflow (requests n).payload (requests n).fill (requests n).schedules
  refine ⟨hleaves.reads, fun hlast e he k hk row hrow => ?_⟩
  have hall : ∀ i < n + 1, (sessionOf rt requests s₀ i).closed := by
    intro i hi
    rcases Nat.lt_succ_iff_lt_or_eq.mp hi with hi | rfl
    · exact hclosed i hi
    · exact hlast
  have hafter := atRest_before hV hC hdoc hvisible hcache (n + 1) hall
  exact (hafter.held e k row he hk hrow).imp_right fun h => h.resolve_right (nomatch ·)

/-! ### Rows that are not committed -/

/-- The step that creates an order. -/
def makeOrder (workflow : String) : Step where
  id := workflow ++ ".step.1"
  name := "Make The Order"
  effects := [.repositoryCall (workflow ++ ".create") "entity.Order" .create none false (some "fresh")]

/-- The step that reads an order through the cache. -/
def lookAtOrder (workflow : String) : Step where
  id := workflow ++ ".step.2"
  name := "Look At The Order"
  effects := [.repositoryCall (workflow ++ ".read") "entity.Order" .read none true none]

/-- Orders that are read through the cache: `make` creates one and reads it, `refuse` does the same
and fails, and `look` reads one. -/
def orderDocument : Document where
  entities := [⟨"entity.Order", "Order",
    [{ name := "id", type := "Text" }, { name := "qty", type := "Integer" }]⟩]
  events := []
  refinements := []
  workflows := [
    { id := "make", name := "make", constraints := {}
      body := [.step (makeOrder "make"), .step (lookAtOrder "make")] },
    { id := "refuse", name := "refuse", constraints := {}
      body := [.step (makeOrder "refuse"), .step (lookAtOrder "refuse"),
        .step ⟨"refuse.step.3", "Refuse", [.rejection "refuse.rejection" "refused"]⟩] },
    { id := "look", name := "look", constraints := {}
      body := [.step (lookAtOrder "look")] }]

theorem orderDocument_keysLowered : orderDocument.KeysLowered where
  hash := by decide
  colon := by decide
  cached id entity op lookup result h := by
    simp [orderDocument, Document.effects, Workflow.steps, Item.steps, makeOrder, lookAtOrder] at h
    rcases h with h | h | h <;> exact h.2.2.1
  cacheKey id op key h := by
    simp [orderDocument, Document.effects, Workflow.steps, Item.steps, makeOrder, lookAtOrder] at h

/-- The interpreter over tables; the keys `down` cannot be invalidated. -/
def orderRuntime (down : List String) : Runtime TableStore (Std.ExtTreeMap String Stored) Unit where
  doc := orderDocument
  lang := .plain
  repo := .tables
  cache := .table down
  network := .silent

/-- Empty tables and an empty cache. -/
def orderStart : Exec TableStore (Std.ExtTreeMap String Stored) Unit :=
  { repo := {}, cache := ∅, network := () }

/-- A request about the order `o-1`. -/
def orderRequest (workflow : String) : Request where
  workflow := workflow
  payload := ((∅ : Dict).insert "id" (.str "o-1")).insert "qty" (.int 1)
  fill := fun _ => ""

/-- The first request is to run the workflow, all later ones look at the order. -/
def thenLook (workflow : String) (n : Nat) : Request :=
  orderRequest (if n = 0 then workflow else "look")

/-- **A commit and a later read**: the theorem at the order that a first run makes and a second run
reads from the cache. -/
theorem cachedReads_committed_thenLook :
    (∀ c ∈ (sessionOf (orderRuntime []) (thenLook "make") orderStart 1).run.exec.cachedReads,
        CommittedBy (orderRuntime []) TableStore.view (thenLook "make") orderStart 1 c.entity c.key
          c.row ∨ c.own ∨
        c.key ∈ (sessionOf (orderRuntime []) (thenLook "make") orderStart 1).run.exec.outages) ∧
      (sessionOf (orderRuntime []) (thenLook "make") orderStart 1).run.exec.cachedReads.length = 1 :=
  ⟨(cachedReads_committed Repo.tables_transactional (Cache.table_honest [])
    orderDocument_keysLowered (thenLook "make") orderStart rfl (fun _ _ _ _ _ h => by
      exact absurd h (by simp [Cache.entries, orderStart])) 1 (by decide +kernel)).1,
    by decide +kernel⟩

/-- The rows that the cached reads of the run number `n` return were committed before. -/
def OnlyCommitted (rt : Runtime ρ χ ν) (V : RepoView ρ) (requests : Nat → Request) (s₀ : Exec ρ χ ν)
    (n : Nat) : Prop :=
  ∀ c ∈ (sessionOf rt requests s₀ n).run.exec.cachedReads,
    CommittedBy rt V requests s₀ n c.entity c.key c.row

theorem not_onlyCommitted {n : Nat}
    (hread : (sessionOf rt requests s₀ n).run.exec.cachedReads.any fun c => c.entity = e && c.key = k)
    (hnone : ∀ j ≤ n, (V.committedRow (before rt requests s₀ j).repo e k).isNone) :
    ¬OnlyCommitted rt V requests s₀ n := by
  intro h
  obtain ⟨c, hc, heq⟩ := List.any_eq_true.mp hread
  rw [Bool.and_eq_true, decide_eq_true_eq, decide_eq_true_eq] at heq
  obtain ⟨j, hj, hrow⟩ := h c hc
  have := hnone j hj
  rw [← heq.1, ← heq.2, hrow] at this
  exact nomatch this

/-- **Rows that are not committed**: a run reads the order that it has made itself through the
cache, before its commit; and where the order cannot be invalidated after the rollback of the run
that has made it, the next run is answered with it. -/
theorem cached_read_uncommitted :
    ¬OnlyCommitted (orderRuntime []) TableStore.view (thenLook "make") orderStart 0 ∧
      ¬OnlyCommitted (orderRuntime ["entity.Order#o-1"]) TableStore.view (thenLook "refuse")
        orderStart 1 :=
  ⟨not_onlyCommitted (e := "entity.Order") (k := "entity.Order#o-1") (by decide +kernel)
      (by decide),
    not_onlyCommitted (e := "entity.Order") (k := "entity.Order#o-1") (by decide +kernel)
      (by decide +kernel)⟩

end Lnpl.Interp
