import Lnpl.Interp.Contract
import Lnpl.Interp.Equiv.Interpreter
import Lnpl.Interp.Equiv.Steps

/-!
# The read-through cache

Which rows can a `cached` read return?  Over a repository driver and a cache that keep their
contracts, and from run to run of one interpreter: rows that were committed at some earlier moment,
rows under a key that the run itself has written, and rows under a key whose invalidation has met a
cache outage (`cachedReads_committed`).  A run that has closed its transaction leaves no other rows
in the cache.

Inside a run, a row that the run put into the cache uncommitted is one that its commit would
publish or that it has to invalidate afterwards, and its key is on the list of keys that a rollback
discards (`ReadThrough`).
-/

namespace Lnpl.Interp

open Lnpl.Lib

variable {ρ χ ν : Type}

/-! ### Keys -/

/-- The key of some row of the entity. -/
def KeyOf (entity key : String) : Prop := ∃ text, key = entity ++ "#" ++ text

/-- What the compiler guarantees of cached reads and cache keys: entity ids contain neither `#` nor
`:`, only reads are `cached`, and the key of a `cache` step is a base without `#`, a `:` and the
id. -/
structure Document.KeysLowered (doc : Document) : Prop where
  hash : ∀ e ∈ doc.readThroughEntities, '#' ∉ e.toList
  colon : ∀ e ∈ doc.readThroughEntities, ':' ∉ e.toList
  cached : ∀ id entity op lookup result,
    Effect.repositoryCall id entity op lookup true result ∈ doc.effects → op = .read
  cacheKey : ∀ id op key, Effect.cacheAccess id op key ∈ doc.effects →
    ∃ base : String, key = [base ++ ":", ""] ∧ '#' ∉ base.toList

/-- Two texts before the first mark are equal. -/
theorem eq_of_append_mark {c : Char} {l l' t t' : List Char} (hl : c ∉ l) (hl' : c ∉ l')
    (h : l ++ c :: t = l' ++ c :: t') : l = l' := by
  rcases List.append_eq_append_iff.mp h with ⟨as, has, hrest⟩ | ⟨bs, hbs, hrest⟩
  · cases as with
    | nil => rw [has, List.append_nil]
    | cons a as =>
      rw [List.cons_append, List.cons.injEq] at hrest
      rw [has, ← hrest.1] at hl'
      exact absurd (List.mem_append_right _ List.mem_cons_self) hl'
  · cases bs with
    | nil => rw [hbs, List.append_nil]
    | cons b bs =>
      rw [List.cons_append, List.cons.injEq] at hrest
      rw [hbs, ← hrest.1] at hl
      exact absurd (List.mem_append_right _ List.mem_cons_self) hl

theorem toList_key (entity text : String) :
    (entity ++ "#" ++ text).toList = entity.toList ++ '#' :: text.toList := by
  rw [String.toList_append, String.toList_append, List.append_assoc]
  rfl

/-- A row key belongs to one entity. -/
theorem KeyOf.eq {e e' k : String} (h : KeyOf e k) (h' : KeyOf e' k) (he : '#' ∉ e.toList)
    (he' : '#' ∉ e'.toList) : e = e' := by
  obtain ⟨t, ht⟩ := h
  obtain ⟨t', ht'⟩ := h'
  have hlists : e.toList ++ '#' :: t.toList = e'.toList ++ '#' :: t'.toList := by
    rw [← toList_key, ← toList_key, ← ht, ← ht']
  exact String.toList_inj.mp (eq_of_append_mark he he' hlists)

/-- The key of a `cache` step is no row key. -/
theorem not_keyOf_cacheKey {e base : String} (text : String) (he : ':' ∉ e.toList)
    (hbase : '#' ∉ base.toList) : ¬KeyOf e (String.intercalate text [base ++ ":", ""]) := by
  rintro ⟨t, ht⟩
  have hkey : String.intercalate text [base ++ ":", ""] = base ++ ":" ++ text ++ "" := rfl
  have hlists : base.toList ++ ':' :: text.toList = e.toList ++ '#' :: t.toList := by
    rw [← toList_key, ← ht, hkey, String.append_empty, String.toList_append, String.toList_append,
      List.append_assoc]
    rfl
  rcases List.append_eq_append_iff.mp hlists with ⟨as, has, hrest⟩ | ⟨bs, hbs, hrest⟩
  · cases as with
    | nil =>
      rw [List.nil_append, List.cons.injEq] at hrest
      exact absurd hrest.1 (by decide)
    | cons a as =>
      rw [List.cons_append, List.cons.injEq] at hrest
      rw [has, ← hrest.1] at he
      exact he (List.mem_append_right _ List.mem_cons_self)
  · cases bs with
    | nil =>
      rw [List.nil_append, List.cons.injEq] at hrest
      exact absurd hrest.1 (by decide)
    | cons b bs =>
      rw [List.cons_append, List.cons.injEq] at hrest
      rw [hbs, ← hrest.1] at hbase
      exact hbase (List.mem_append_right _ List.mem_cons_self)

/-! ### The invariant of a run -/

/-- The run has called the repository to write under the entity and key. -/
def Exec.wrote (s : Exec ρ χ ν) (e k : String) : Prop := s.repoOps.any fun op => op.writes e k

section Invariant

variable (V : RepoView ρ) (holds : χ → String → Stored → Prop) (doc : Document)
  (Past : String → String → Dict → Prop)

/-- The entry `row` of the cache under the key is a row of the past, or out of reach of
invalidation, or one that this run has put there and will discard if it fails; `current` says that
its commit publishes the row. -/
def Covered (s : Exec ρ χ ν) (e k : String) (row : Dict) (current : Prop) : Prop :=
  Past e k row ∨ k ∈ s.outages ∨
    s.wrote e k ∧ k ∈ s.readThroughWrites ∧ (k ∈ s.readThroughInvalidations ∨ current)

/-- What holds inside a run, where `Past` has the rows that were committed before it.  The entries
of the cache under the key `except` may be out of date. -/
structure ReadThrough (except : String → String → Prop) (s : Exec ρ χ ν) : Prop where
  committed : ∀ e k row, V.committedRow s.repo e k = some row → Past e k row
  unwritten : ∀ e k, ¬s.wrote e k → V.visible s.repo e k = V.committed s.repo e k
  held : ∀ e k row, e ∈ doc.readThroughEntities → KeyOf e k → holds s.cache k row →
    Covered Past s e k row.data (except e k ∨ V.row s.repo e k = some row.data)
  reads : ∀ c ∈ s.cachedReads, Past c.entity c.key c.row ∨ c.own ∨ c.key ∈ s.outages

/-- No entry of the cache under the key relies on the row that is visible now. -/
def Replaceable (e k : String) (s : Exec ρ χ ν) : Prop :=
  ∀ row, e ∈ doc.readThroughEntities → KeyOf e k → holds s.cache k row →
    Covered Past s e k row.data False

end Invariant

/-- The entries are accounted for, none is out of date. -/
abbrev Nowhere (_ _ : String) : Prop := False

/-- The one pair of entity and key. -/
abbrev Only (e k e' k' : String) : Prop := e' = e ∧ k' = k

section Keeping

variable {V : RepoView ρ} {holds : χ → String → Stored → Prop} {doc : Document}
  {Past : String → String → Dict → Prop} {except : String → String → Prop} {s s' : Exec ρ χ ν}
  {e k : String}

theorem Covered.imp {row : Dict} {current current' : Prop} (h : Covered Past s e k row current)
    (hwrote : s.wrote e k → s'.wrote e k) (hwrites : ∀ k ∈ s.readThroughWrites, k ∈ s'.readThroughWrites)
    (hinvalid : ∀ k ∈ s.readThroughInvalidations, k ∈ s'.readThroughInvalidations)
    (houtages : ∀ k ∈ s.outages, k ∈ s'.outages) (hcurrent : current → current') :
    Covered Past s' e k row current' :=
  h.imp_right (Or.imp (houtages k) fun ⟨hw, hk, hc⟩ =>
    ⟨hwrote hw, hwrites k hk, hc.imp (hinvalid k) hcurrent⟩)

/-- The entries stay accounted for while the rows stay and the lists of the run only grow. -/
theorem ReadThrough.grow (h : ReadThrough V holds doc Past except s)
    (hrepo : V.Same s.repo s'.repo) (hcache : s'.cache = s.cache)
    (hwrote : ∀ e k, s.wrote e k → s'.wrote e k)
    (hwrites : ∀ k ∈ s.readThroughWrites, k ∈ s'.readThroughWrites)
    (hinvalid : ∀ k ∈ s.readThroughInvalidations, k ∈ s'.readThroughInvalidations)
    (houtages : ∀ k ∈ s.outages, k ∈ s'.outages) (hreads : s'.cachedReads = s.cachedReads) :
    ReadThrough V holds doc Past except s' where
  committed e k row hrow := by
    refine h.committed e k row ?_
    rw [← hrow, RepoView.committedRow, RepoView.committedRow, hrepo.committed]
  unwritten e k hno := by
    rw [hrepo.visible, hrepo.committed]
    exact h.unwritten e k fun hw => hno (hwrote e k hw)
  held e k row he hk hrow := by
    rw [hcache] at hrow
    refine (h.held e k row he hk hrow).imp (hwrote e k) hwrites hinvalid houtages ?_
    rw [RepoView.row, RepoView.row, hrepo.visible]
    exact id
  reads c hc := by
    rw [hreads] at hc
    exact (h.reads c hc).imp_right (Or.imp_right (houtages _))

/-- What the invariant speaks about. -/
def Exec.kept (s : Exec ρ χ ν) :
    ρ × χ × List RepoOp × List String × List String × List String × List CachedRead :=
  (s.repo, s.cache, s.repoOps, s.readThroughWrites, s.readThroughInvalidations, s.outages,
    s.cachedReads)

theorem RepoView.Same.refl (d : ρ) : V.Same d d := ⟨rfl, rfl⟩

/-- Changes elsewhere. -/
theorem ReadThrough.frame (h : ReadThrough V holds doc Past except s) (hs : s'.kept = s.kept) :
    ReadThrough V holds doc Past except s' := by
  simp only [Exec.kept, Prod.mk.injEq] at hs
  obtain ⟨hrepo, hcache, hops, hwrites, hinvalid, houtages, hreads⟩ := hs
  refine h.grow (by rw [hrepo]; exact .refl _) hcache ?_
    (by rw [hwrites]; exact fun _ => id) (by rw [hinvalid]; exact fun _ => id)
    (by rw [houtages]; exact fun _ => id) hreads
  unfold Exec.wrote
  rw [hops]
  exact fun _ _ => id

variable {d : ρ} {α : Type}

/-- The visible row under one key changes: its entries are out of date. -/
theorem ReadThrough.replace (h : ReadThrough V holds doc Past Nowhere s)
    (hrepo : V.Elsewhere e k s.repo d) (hwrote : s.wrote e k) :
    ReadThrough V holds doc Past (Only e k) { s with repo := d } where
  committed e' k' row hrow := by
    refine h.committed e' k' row ?_
    rw [← hrow, RepoView.committedRow, RepoView.committedRow, hrepo.committed]
  unwritten e' k' hno := by
    have hne : (e', k') ≠ (e, k) := by
      rintro ⟨⟩
      exact hno hwrote
    show V.visible d e' k' = V.committed d e' k'
    rw [hrepo.visible e' k' hne, hrepo.committed]
    exact h.unwritten e' k' hno
  held e' k' row he hk hrow := by
    refine (h.held e' k' row he hk hrow).imp id (fun _ => id) (fun _ => id) (fun _ => id) ?_
    rintro (hex | hcur)
    · exact hex.elim
    · by_cases heq : (e', k') = (e, k)
      · exact Or.inl ⟨(Prod.mk.inj heq).1, (Prod.mk.inj heq).2⟩
      · refine Or.inr ?_
        rw [← hcur]
        show (V.visible d e' k').map _ = (V.visible s.repo e' k').map _
        rw [hrepo.visible e' k' heq]
  reads := h.reads

/-- No entry is out of date where none relied on the row. -/
theorem ReadThrough.settle (h : ReadThrough V holds doc Past (Only e k) s)
    (hr : Replaceable holds doc Past e k s) : ReadThrough V holds doc Past Nowhere s where
  committed := h.committed
  unwritten := h.unwritten
  held e' k' row he hk hrow := by
    by_cases heq : e' = e ∧ k' = k
    · obtain ⟨rfl, rfl⟩ := heq
      exact (hr row he hk hrow).imp id (fun _ => id) (fun _ => id) (fun _ => id) False.elim
    · refine (h.held e' k' row he hk hrow).imp id (fun _ => id) (fun _ => id) (fun _ => id) ?_
      exact Or.imp_left heq
  reads := h.reads

/-- No entry is out of date once the key is to be invalidated after the commit. -/
theorem ReadThrough.invalidateAfterCommit {rt : Runtime ρ χ ν}
    (h : ReadThrough V holds rt.doc Past (Only e k) s) :
    ReadThrough V holds rt.doc Past Nowhere (invalidateAfterCommit rt e k s) := by
  unfold Lnpl.Interp.invalidateAfterCommit
  split
  · next he =>
    have hgrown : ReadThrough V holds rt.doc Past (Only e k)
        { s with readThroughInvalidations := s.readThroughInvalidations ++ [k] } :=
      h.grow (.refl _) rfl (fun _ _ => id) (fun _ => id)
        (fun _ => List.mem_append_left _) (fun _ => id) rfl
    refine hgrown.settle fun row he' hk hrow => ?_
    have hold := hgrown.held e k row he' hk hrow
    exact hold.imp_right (Or.imp_right fun ⟨hw, hkw, _⟩ =>
      ⟨hw, hkw, Or.inl (List.mem_append_right _ List.mem_cons_self)⟩)
  · next he =>
    exact h.settle fun row he' => absurd he' he

theorem ReadThrough.weaken (h : ReadThrough V holds doc Past Nowhere s) :
    ReadThrough V holds doc Past except s where
  committed := h.committed
  unwritten := h.unwritten
  held e k row he hk hrow :=
    (h.held e k row he hk hrow).imp id (fun _ => id) (fun _ => id) (fun _ => id)
      (Or.imp_left False.elim)
  reads := h.reads

theorem Exec.wrote_noteOp (op : RepoOp) (h : s.wrote e k) : (s.noteOp op).wrote e k := by
  unfold Exec.wrote Exec.noteOp
  rw [List.any_append, Bool.or_eq_true]
  exact Or.inl h

/-- A call of the repository that is noted as a write. -/
theorem Exec.wrote_of_noteOp {op : RepoOp} (h : op.writes e k) : (s.noteOp op).wrote e k := by
  unfold Exec.wrote Exec.noteOp
  rw [List.any_append, Bool.or_eq_true, List.any_cons, h]
  exact Or.inr rfl

theorem ReadThrough.noteOp (h : ReadThrough V holds doc Past except s) (op : RepoOp) :
    ReadThrough V holds doc Past except (s.noteOp op) :=
  h.grow (.refl _) rfl (fun _ _ => Exec.wrote_noteOp op) (fun _ => id) (fun _ => id)
    (fun _ => id) rfl

theorem Replaceable.noteOp (h : Replaceable holds doc Past e k s) (op : RepoOp) :
    Replaceable holds doc Past e k (s.noteOp op) := fun row he hk hrow =>
  (h row he hk hrow).imp (Exec.wrote_noteOp op) (fun _ => id) (fun _ => id) (fun _ => id) id

/-! ### Calls of the drivers -/

theorem ReadThrough.same (h : ReadThrough V holds doc Past except s) (hd : V.Same s.repo d) :
    ReadThrough V holds doc Past except { s with repo := d } :=
  h.grow hd rfl (fun _ _ => id) (fun _ => id) (fun _ => id) (fun _ => id) rfl

/-- A call of the repository that changes no row. -/
theorem keeps_onRepo_same {m : EStateM Exc ρ α}
    (hm : ∀ d, Ends (fun _ => V.Same d) (fun _ => V.Same d) (m d)) :
    Keeps (ReadThrough V holds doc Past except) (onRepo m : M ρ χ ν α) :=
  Triple.zoom_ends fun t ht => (hm t.repo).mono (fun _ _ => ht.same) fun _ _ => ht.same

/-- The cache answers row keys as before, or less. -/
theorem ReadThrough.cache (h : ReadThrough V holds doc Past except s) {c : χ}
    (hc : ∀ e ∈ doc.readThroughEntities, ∀ k, KeyOf e k → ∀ row, holds c k row → holds s.cache k row) :
    ReadThrough V holds doc Past except { s with cache := c } where
  committed := h.committed
  unwritten := h.unwritten
  held e k row he hk hrow := h.held e k row he hk (hc e he k hk row hrow)
  reads := h.reads

/-- A call of the cache that puts nothing under a row key. -/
theorem keeps_onCache {m : EStateM Exc χ α} (hm : ∀ c, Ends
      (fun _ c' => ∀ e ∈ doc.readThroughEntities, ∀ k, KeyOf e k → ∀ row, holds c' k row → holds c k row)
      (fun _ c' => ∀ k row, holds c' k row → holds c k row) (m c)) :
    Keeps (ReadThrough V holds doc Past except) (onCache m : M ρ χ ν α) :=
  Triple.zoom_ends fun t ht => (hm t.cache).mono (fun _ _ => ht.cache)
    fun _ _ h => ht.cache fun _ _ k _ => h k

end Keeping

/-! ### The effects of a step -/

section Effects

variable {rt : Runtime ρ χ ν} {call : Call} {V : RepoView ρ} {holds : χ → String → Stored → Prop}
  {Past : String → String → Dict → Prop} {e k : String}

/-- A call of `persist` puts the entries under its key out of date. -/
theorem triple_persist (hV : rt.repo.Transactional V) (entity key : String) (row : Stored) :
    Triple (ReadThrough V holds rt.doc Past Nowhere) (persist rt entity key row)
      (fun _ => ReadThrough V holds rt.doc Past (Only entity key))
      fun _ => ReadThrough V holds rt.doc Past Nowhere := by
  refine Triple.bind (Q := fun _ s => ReadThrough V holds rt.doc Past Nowhere s ∧ s.wrote entity key)
    (Triple.modify fun s h => ⟨h.noteOp _, ?_⟩) fun _ => ?_
  · refine Exec.wrote_of_noteOp ?_
    simp [RepoOp.writes]
  · refine Triple.bind (triple_translated ?_) fun row => Triple.pure fun _ => id
    refine Triple.zoom_ends fun t ht => (hV.persist entity key _ t.repo).mono ?_ ?_
    · exact fun _ _ h => ht.1.replace h.1 ht.2
    · exact fun _ _ => ht.1.same

theorem keeps_replaceable_persist (entity key : String) (row : Stored) :
    Keeps (Replaceable holds rt.doc Past e k) (persist rt entity key row) := by
  refine (Keeps.modify fun s h => h.noteOp _).bind fun _ => ?_
  refine (keeps_translated (Keeps.zoom ?_ _)).bind fun _ => Keeps.pure _
  exact fun t d h => h

/-- A `persist` under a key on which no entry relies. -/
theorem triple_persist_replaceable (hV : rt.repo.Transactional V) (row : Stored) :
    Triple (fun s => ReadThrough V holds rt.doc Past Nowhere s ∧ Replaceable holds rt.doc Past e k s)
      (persist rt e k row)
      (fun _ => ReadThrough V holds rt.doc Past Nowhere)
      fun _ => ReadThrough V holds rt.doc Past Nowhere :=
  (Triple.and (triple_persist hV e k row) (keeps_replaceable_persist e k row)).mono (fun _ => id)
    (fun _ _ h => h.1.settle h.2) fun _ _ h => h.1

/-- An Assignment keeps the entries accounted for. -/
theorem keeps_assignment (hV : rt.repo.Transactional V) (binding field expression : String)
    (aggFieldType : Option String) :
    Keeps (ReadThrough V holds rt.doc Past Nowhere)
      (assignment rt call binding field expression aggFieldType) := by
  refine Keeps.get.bind fun s => ?_
  cases s.bindings[binding]? with
  | none => exact Keeps.throw _
  | some row =>
    refine (Keeps.ofExcept _).bind fun value => ?_
    refine Keeps.check (Keeps.bind (Keeps.modify fun s h => h.frame rfl) fun _ => ?_)
    cases (rt.doc.entityIdForBinding binding).orElse fun _ => row.entityId with
    | none => exact Keeps.throw _
    | some entity =>
      refine Keeps.bind (Keeps.modify fun s h => h.frame rfl) fun _ => ?_
      refine Keeps.bind (Keeps.modify fun s h => h.frame rfl) fun _ => ?_
      refine Triple.bind (triple_persist hV entity _ _) fun written => ?_
      refine Triple.bind (Q := fun _ => ReadThrough V holds rt.doc Past (Only entity _))
        (Triple.modify fun s h => h.frame rfl) fun _ => ?_
      refine Triple.bind (Q := fun _ => ReadThrough V holds rt.doc Past (Only entity _))
        (Triple.modify fun s h => h.frame rfl) fun _ => ?_
      refine Triple.bind (Q := fun _ => ReadThrough V holds rt.doc Past Nowhere)
        (Triple.modify fun s h => h.invalidateAfterCommit) fun _ => ?_
      exact Keeps.modify fun s h => h.frame rfl

/-! ### RepositoryCall -/

variable {entity node : String} {op : Operation} {lookup : Option Ref}

variable {key : String} {row : Dict} {cached : Bool} {result : Option String}

/-- Without `cached`, a call fetches what the driver answers. -/
theorem triple_fetch_uncached {P R : Exec ρ χ ν → Prop} {Q : Exec ρ χ ν → Prop}
    (h : Triple P (onRepo (rt.repo.execute entity op key)) (fun _ => Q) fun _ => R) :
    Triple P (fetch rt call entity op key false) (fun _ => Q) fun _ => R := by
  refine Triple.bind (Q := fun _ => P) (Triple.get fun _ hs => hs) fun s => ?_
  refine Triple.bind (Q := fun hit s => hit = none ∧ P s) (Triple.pure fun _ hs => ⟨rfl, hs⟩)
    fun hit => ?_
  cases hit with
  | some row => exact fun s hs => nomatch hs.1
  | none =>
    refine Triple.bind ((triple_translated h).mono (fun _ hs => hs.2) (fun _ _ => id) fun _ _ => id)
      fun found => ?_
    cases found.strip with
    | dict row => exact Triple.pure fun _ => id
    | none => exact Triple.pure fun _ => id
    | other => exact Triple.pure fun _ => id

/-- The row that a driver's read has found is the visible one. -/
theorem triple_read (hV : rt.repo.Transactional V) (entity key : String) :
    Triple (ReadThrough V holds rt.doc Past Nowhere)
      (onRepo (rt.repo.execute entity .read key) : M ρ χ ν Found)
      (fun found s => ReadThrough V holds rt.doc Past Nowhere s ∧
        ∀ row, found.strip = .dict row → V.row s.repo entity key = some row.data)
      fun _ => ReadThrough V holds rt.doc Past Nowhere := by
  refine Triple.zoom_ends fun t ht => (hV.read entity key t.repo).mono ?_ fun _ _ => ht.same
  refine fun found _ h => ⟨ht.same h.1, fun row hrow => ?_⟩
  cases found with
  | none => exact nomatch hrow
  | other => exact nomatch hrow
  | dict stored =>
    rw [Found.strip, Found.dict.injEq] at hrow
    rw [RepoView.row, h.1.visible, h.2 stored rfl, ← hrow]
    rfl

/-- A visible row was committed before, or the run has written it. -/
theorem ReadThrough.visible {s : Exec ρ χ ν} (h : ReadThrough V holds rt.doc Past Nowhere s)
    (hrow : V.row s.repo e k = some row) : Past e k row ∨ s.wrote e k := by
  by_cases hw : s.wrote e k
  · exact Or.inr hw
  · refine Or.inl (h.committed e k row ?_)
    rw [RepoView.committedRow, ← h.unwritten e k hw]
    exact hrow

/-- A `cached` read returns a row that is accounted for. -/
theorem ReadThrough.noteCached {s : Exec ρ χ ν} (h : ReadThrough V holds rt.doc Past Nowhere s)
    (hit : Bool) (hrow : Past e k row ∨ s.wrote e k ∨ k ∈ s.outages) :
    ReadThrough V holds rt.doc Past Nowhere (s.noteCached e k row hit) where
  committed := h.committed
  unwritten := h.unwritten
  held := h.held
  reads c hc := by
    rcases List.mem_append.mp hc with hold | hnew
    · exact h.reads c hold
    · rw [List.mem_singleton.mp hnew]
      exact hrow

/-- The row that a miss has read is put into the cache. -/
theorem triple_cacheSet (hC : rt.cache.Honest holds) (hdoc : rt.doc.KeysLowered)
    (he : e ∈ rt.doc.readThroughEntities) (hk : KeyOf e k) (now : Nat) (row : Stored)
    (ttl : Option Nat) :
    Triple (fun s : Exec ρ χ ν =>
        ReadThrough V holds rt.doc Past Nowhere s ∧ V.row s.repo e k = some row.data)
      (orOutage (do
        onCache (rt.cache.set now k row ttl)
        modify fun s => { s with readThroughWrites := s.readThroughWrites ++ [k] }) (pure ()))
      (fun _ s => ReadThrough V holds rt.doc Past Nowhere s ∧ V.row s.repo e k = some row.data)
      fun _ => ReadThrough V holds rt.doc Past Nowhere := by
  refine Triple.tryCatch (E := fun _ s => ReadThrough V holds rt.doc Past Nowhere s ∧
    V.row s.repo e k = some row.data) ?_ fun e => ?_
  · refine Triple.bind (Q := fun _ s => ReadThrough V holds rt.doc Past Nowhere
      { s with readThroughWrites := s.readThroughWrites ++ [k] } ∧ V.row s.repo e k = some row.data)
      ?_ fun _ => Triple.modify fun _ => id
    refine Triple.zoom_ends fun t ht => (hC.set now k row ttl t.cache).mono ?_ ?_
    · intro _ _ hset
      refine ⟨⟨ht.1.committed, ht.1.unwritten, fun e' k' row' he' hk' hheld => ?_, ht.1.reads⟩, ht.2⟩
      rcases hset k' row' hheld with hold | ⟨rfl, rfl⟩
      · exact (ht.1.held e' k' row' he' hk' hold).imp id (fun _ => List.mem_append_left _)
          (fun _ => id) (fun _ => id) id
      · -- the new entry, whose key belongs to the entity that is read
        obtain rfl := hk'.eq hk (hdoc.hash e' he') (hdoc.hash e he)
        rcases ht.1.visible ht.2 with hpast | hwrote
        · exact Or.inl hpast
        · exact Or.inr (Or.inr ⟨hwrote, List.mem_append_right _ List.mem_cons_self,
            Or.inr (Or.inr ht.2)⟩)
    · exact fun _ _ hless => ⟨ht.1.cache fun _ _ k _ => hless k, ht.2⟩
  · cases e with
    | driver cls message => exact Triple.pure fun _ => id
    | run e => exact Triple.throw fun _ => And.left
    | other cls => exact Triple.throw fun _ => And.left

/-- A `cached` read keeps the entries accounted for. -/
theorem keeps_fetch_cached (hV : rt.repo.Transactional V) (hC : rt.cache.Honest holds)
    (hdoc : rt.doc.KeysLowered) (he : e ∈ rt.doc.readThroughEntities) (hk : KeyOf e k) :
    Keeps (ReadThrough V holds rt.doc Past Nowhere) (fetch rt call e .read k true) := by
  refine Keeps.get.bind fun s => ?_
  refine Triple.bind (Q := fun hit s => ReadThrough V holds rt.doc Past Nowhere s ∧
    ∀ row, hit = some row → Past e k row.data ∨ s.wrote e k ∨ k ∈ s.outages) ?_ fun hit => ?_
  · refine Triple.tryCatch (E := fun _ => ReadThrough V holds rt.doc Past Nowhere) ?_ fun e => ?_
    · refine Triple.zoom_ends fun t ht => (hC.get s.now k t.cache).mono ?_ ?_
      · intro found _ h
        refine ⟨ht.cache fun _ _ k _ => h.2 k, fun row hrow => ?_⟩
        rcases ht.held e k row he hk (h.1 row hrow) with hpast | hout | hown
        · exact Or.inl hpast
        · exact Or.inr (Or.inr hout)
        · exact Or.inr (Or.inl hown.1)
      · exact fun _ _ hless => ht.cache fun _ _ k _ => hless k
    · cases e with
      | driver cls message => exact Triple.pure fun _ h => ⟨h, nofun⟩
      | run e => exact Triple.throw fun _ => id
      | other cls => exact Triple.throw fun _ => id
  · cases hit with
    | some row =>
      refine Triple.bind (Q := fun _ => ReadThrough V holds rt.doc Past Nowhere)
        (Triple.modify fun s h => h.1.noteCached true (h.2 row rfl)) fun _ => Triple.pure fun _ => id
    | none =>
      refine Triple.bind ((triple_translated (triple_read hV e k)).mono (fun _ h => h.1)
        (fun _ _ => id) fun _ _ => id) fun found => ?_
      cases hfound : found.strip with
      | none => exact Triple.pure fun _ h => h.1
      | other => exact Triple.pure fun _ h => h.1
      | dict row =>
        refine Triple.bind ((triple_cacheSet hC hdoc he hk s.now row call.con.cacheTtlMs).mono
          (fun _ h => ⟨h.1, h.2 row rfl⟩) (fun _ _ => id) fun _ _ => id) fun _ => ?_
        refine Triple.bind (Q := fun _ => ReadThrough V holds rt.doc Past Nowhere)
          (Triple.modify fun s h => h.1.noteCached false ?_) fun _ => Triple.pure fun _ => id
        exact (h.1.visible h.2).imp_right Or.inl

/-- A call of the repository that changes no row, without the cache. -/
theorem keeps_fetch_same
    (hop : ∀ d, Ends (fun _ => V.Same d) (fun _ => V.Same d) (rt.repo.execute e op k d)) :
    Keeps (ReadThrough V holds rt.doc Past Nowhere) (fetch rt call e op k false) :=
  triple_fetch_uncached (keeps_onRepo_same hop)

/-- After a `create`, no entry relies on the row: there was none. -/
theorem triple_fetch_create (hV : rt.repo.Transactional V) :
    Triple (fun s => ReadThrough V holds rt.doc Past Nowhere s ∧ s.wrote e k)
      (fetch rt call e .create k false)
      (fun _ s => ReadThrough V holds rt.doc Past Nowhere s ∧ Replaceable holds rt.doc Past e k s)
      fun _ => ReadThrough V holds rt.doc Past Nowhere := by
  refine triple_fetch_uncached
    (Q := fun s => ReadThrough V holds rt.doc Past Nowhere s ∧ Replaceable holds rt.doc Past e k s) ?_
  refine Triple.zoom_ends fun t ht => (hV.create e k t.repo).mono ?_ fun _ _ => ht.1.same
  rintro found d' ⟨helsewhere, hnone, -⟩
  have hfree : Replaceable holds rt.doc Past e k { t with repo := d' } := by
    intro row he hk hrow
    refine (ht.1.held e k row he hk hrow).imp id (fun _ => id) (fun _ => id) (fun _ => id) ?_
    rintro (hno | hcur)
    · exact hno
    · rw [RepoView.row, hnone] at hcur
      exact nomatch hcur
  exact ⟨(ht.1.replace helsewhere ht.2).settle hfree, hfree⟩

/-- After a `delete`, the entries under its key are out of date. -/
theorem triple_fetch_delete (hV : rt.repo.Transactional V) :
    Triple (fun s => ReadThrough V holds rt.doc Past Nowhere s ∧ s.wrote e k)
      (fetch rt call e .delete k false)
      (fun _ => ReadThrough V holds rt.doc Past (Only e k))
      fun _ => ReadThrough V holds rt.doc Past Nowhere := by
  refine triple_fetch_uncached (Q := ReadThrough V holds rt.doc Past (Only e k)) ?_
  refine Triple.zoom_ends fun t ht => (hV.delete e k t.repo).mono ?_ fun _ _ => ht.1.same
  exact fun _ _ h => ht.1.replace h.1 ht.2

/-- The row that a `create` seeds goes where no entry relies on a row. -/
theorem triple_createRow (hV : rt.repo.Transactional V) (fills : Dict) (result : Option String) :
    Triple (fun s => ReadThrough V holds rt.doc Past Nowhere s ∧ Replaceable holds rt.doc Past e k s)
      (createRow rt call e k fills result) (fun _ => ReadThrough V holds rt.doc Past Nowhere)
      fun _ => ReadThrough V holds rt.doc Past Nowhere := by
  have hite : ∀ m : M ρ χ ν Unit, Keeps (ReadThrough V holds rt.doc Past Nowhere) m → ∀ (b : Bool) row,
      Triple (fun s => ReadThrough V holds rt.doc Past Nowhere s ∧ Replaceable holds rt.doc Past e k s)
        (if b = true then (do let _ ← persist rt e k row; m) else m)
        (fun _ => ReadThrough V holds rt.doc Past Nowhere)
        fun _ => ReadThrough V holds rt.doc Past Nowhere := by
    intro m hm b row
    refine Triple.ite (fun _ => Triple.bind (triple_persist_replaceable hV _) fun _ => hm) fun _ => ?_
    exact hm.mono (fun _ => And.left) (fun _ _ => id) fun _ _ => id
  cases result with
  | none => exact hite _ (Keeps.pure _) _ _
  | some name =>
    exact hite (modify (Exec.bind name _)) (Keeps.modify fun s h => h.frame rfl) _ _

/-- Every key that a call addresses is one of its entity. -/
theorem keyOf_addressedKey {fills : Dict} {s : Scope}
    (h : addressedKey rt entity lookup fills s = .ok key) : KeyOf entity key := by
  unfold addressedKey at h
  split at h
  · exact ⟨_, (Except.ok.inj h).symm⟩
  · unfold resolveLookupKey at h
    split at h
    · exact ⟨_, (Except.ok.inj h).symm⟩
    · dsimp only at h
      split at h
      · exact nomatch h
      · exact ⟨_, (Except.ok.inj h).symm⟩

/-- The end of a call that found no row. -/
theorem keeps_notFound {α : Type} {except : String → String → Prop} :
    Keeps (ReadThrough V holds rt.doc Past except) (notFound e op : M ρ χ ν α) :=
  Keeps.bind (Keeps.modify fun _ h => h.frame rfl) fun _ => Keeps.throw _

theorem kept_bindRead (entity key : String) (row : Stored) (s : Exec ρ χ ν) :
    (bindRead rt entity key row s).kept = s.kept := by
  unfold bindRead
  split <;> rfl

section

variable (hV : rt.repo.Transactional V)
include hV

/-- A RepositoryCall of the document from the call of its driver on. -/
theorem triple_calledRow (hC : rt.cache.Honest holds) (hdoc : rt.doc.KeysLowered)
    (heffect : Effect.repositoryCall node entity op lookup cached result ∈ rt.doc.effects)
    (hk : KeyOf entity k) (fills : Dict) :
    Triple (fun s => ReadThrough V holds rt.doc Past Nowhere s ∧ (op ≠ .read → s.wrote entity k))
      (do
        let found ← fetch rt call entity op k cached
        if op.modifies then modify (invalidateAfterCommit rt entity k)
        match op, found with
        | .read, .dict row => modify (bindRead rt entity k row)
        | .read, .none => notFound entity op
        | .create, _ => createRow rt call entity k fills result
        | _, _ => if found.wroteNothing rt.lang op then notFound entity op)
      (fun _ => ReadThrough V holds rt.doc Past Nowhere)
      fun _ => ReadThrough V holds rt.doc Past Nowhere := by
  have huncached : op ≠ .read → cached = false := by
    intro hop
    cases cached with
    | false => rfl
    | true => exact absurd (hdoc.cached _ _ _ _ _ heffect) hop
  cases op with
  | read =>
    have hread : Keeps (ReadThrough V holds rt.doc Past Nowhere)
        (fetch rt call entity .read k cached) := by
      cases cached with
      | false =>
        exact keeps_fetch_same fun d =>
          Ends.mono (hV.read entity k d) (fun _ _ => And.left) fun _ _ => id
      | true =>
        refine keeps_fetch_cached hV hC hdoc ?_ hk
        exact List.mem_filterMap.mpr ⟨_, heffect, rfl⟩
    refine Triple.bind (hread.mono (fun _ => And.left) (fun _ _ => id) fun _ _ => id) fun found => ?_
    cases found with
    | none => exact keeps_notFound
    | dict row => exact Keeps.modify fun s h => h.frame (kept_bindRead entity k row s)
    | other => exact Keeps.pure _
  | create =>
    rw [huncached nofun]
    refine Triple.bind ((triple_fetch_create hV).mono (fun _ h => ⟨h.1, h.2 nofun⟩)
      (fun _ _ => id) fun _ _ => id) fun found => ?_
    exact triple_createRow hV fills result
  | update =>
    rw [huncached nofun]
    refine Triple.bind ((keeps_fetch_same (hV.update entity k)).mono (fun _ => And.left)
      (fun _ _ => id) fun _ _ => id) fun found => ?_
    refine Triple.bind (Q := fun _ => ReadThrough V holds rt.doc Past Nowhere)
      (Triple.modify fun s h => (h.weaken).invalidateAfterCommit) fun _ => ?_
    exact Keeps.ite keeps_notFound (Keeps.pure _)
  | delete =>
    rw [huncached nofun]
    refine Triple.bind ((triple_fetch_delete hV).mono (fun _ h => ⟨h.1, h.2 nofun⟩)
      (fun _ _ => id) fun _ _ => id) fun found => ?_
    refine Triple.bind (Q := fun _ => ReadThrough V holds rt.doc Past Nowhere)
      (Triple.modify fun s h => h.invalidateAfterCommit) fun _ => ?_
    exact Keeps.ite keeps_notFound (Keeps.pure _)

/-- A RepositoryCall of the document keeps the entries accounted for. -/
theorem keeps_repositoryCall (hC : rt.cache.Honest holds) (hdoc : rt.doc.KeysLowered)
    (heffect : Effect.repositoryCall node entity op lookup cached result ∈ rt.doc.effects) :
    Keeps (ReadThrough V holds rt.doc Past Nowhere)
      (repositoryCall rt call entity op lookup cached result) := by
  unfold repositoryCall
  dsimp only
  refine Keeps.check (Keeps.get.bind fun _ => ?_)
  refine Triple.bind (Q := fun key s => KeyOf entity key ∧ ReadThrough V holds rt.doc Past Nowhere s)
    (Triple.ofExcept (fun key hkey s h => ⟨keyOf_addressedKey hkey, h⟩) fun _ _ _ h => h)
    fun key => Triple.assume fun hk => ?_
  refine Triple.bind (Q := fun _ s =>
    ReadThrough V holds rt.doc Past Nowhere s ∧ (op ≠ .read → s.wrote entity key)) ?_ fun _ => ?_
  · refine Triple.modify fun s h => ⟨h.noteOp _, fun hop => Exec.wrote_of_noteOp ?_⟩
    cases op with
    | read => exact absurd rfl hop
    | create => simp [RepoOp.writes, Operation.text]
    | update => simp [RepoOp.writes, Operation.text]
    | delete => simp [RepoOp.writes, Operation.text]
  · exact triple_calledRow hV hC hdoc heffect hk _

/-! ### The other effects -/

theorem keeps_query (entity : String) (predicate : List PredicateTerm) (order : Option Order)
    (limit : Option Nat) :
    Keeps (ReadThrough V holds rt.doc Past Nowhere) (query rt call entity predicate order limit) := by
  have hplain : Keeps (ReadThrough V holds rt.doc Past Nowhere)
      (onRepo (rt.repo.query entity) : M ρ χ ν (List Dict)) :=
    keeps_onRepo_same (hV.query entity)
  have hrows : ∀ values, Keeps (ReadThrough V holds rt.doc Past Nowhere)
      (queryRows rt entity values order limit : M ρ χ ν (List Dict)) := by
    intro values
    refine Keeps.ite hplain ?_
    cases hpush : rt.repo.queryPredicate with
    | some query => exact keeps_onRepo_same (hV.queryPredicate query hpush entity _ _ _)
    | none =>
      refine hplain.bind fun rows => (Keeps.ofExcept _).bind fun rows => ?_
      exact Keeps.bind (Keeps.modify fun s h => h.frame rfl) fun _ => Keeps.pure _
  refine Keeps.get.bind fun s => (Keeps.ofExcept _).bind fun values => ?_
  refine Keeps.bind (Keeps.modify fun s h => h.noteOp _) fun _ => ?_
  refine (keeps_translated (hrows _)).bind fun rows => ?_
  cases rt.doc.entity? entity with
  | none => exact Keeps.pure _
  | some e => exact Keeps.modify fun s h => h.frame rfl

end

/-- The key of a `cache` step is apart from those of the rows. -/
theorem keeps_cacheAccess (hC : rt.cache.Honest holds) (hdoc : rt.doc.KeysLowered)
    {op : CacheOperation} {key : List String}
    (heffect : Effect.cacheAccess node op key ∈ rt.doc.effects) :
    Keeps (ReadThrough V holds rt.doc Past Nowhere) (cacheAccess rt call op key) := by
  obtain ⟨base, rfl, hbase⟩ := hdoc.cacheKey _ _ _ heffect
  refine Keeps.get.bind fun s => keeps_translated ?_
  cases op with
  | set =>
    refine keeps_onCache fun c => Ends.mono (hC.set _ _ _ _ c) ?_ fun _ _ => id
    intro _ c' hset e he k hk row hrow
    rcases hset k row hrow with hold | ⟨rfl, -⟩
    · exact hold
    · exact absurd hk (not_keyOf_cacheKey _ (hdoc.colon e he) hbase)
  | get =>
    refine Keeps.bind (keeps_onCache fun c => Ends.mono (hC.get _ _ c) ?_ fun _ _ => id)
      fun _ => Keeps.pure _
    exact fun _ c' h e _ k _ => h.2 k
  | invalidate =>
    refine keeps_onCache fun c => Ends.mono (hC.invalidate _ c) ?_ fun _ _ => And.right
    exact fun _ c' h e _ k _ row hrow => (h k row hrow).1

theorem keeps_eventEmit (hV : rt.repo.Transactional V) (id : String) (event : Option String)
    (payloadMap : List MapEntry) :
    Keeps (ReadThrough V holds rt.doc Past Nowhere) (eventEmit rt call id event payloadMap) := by
  cases event with
  | none => exact Keeps.throw _
  | some event =>
    unfold eventEmit
    refine Keeps.check (Keeps.get.bind fun s => ?_)
    refine Keeps.bind (keeps_translated (keeps_onRepo_same (hV.recordEmission _))) fun _ => ?_
    refine Keeps.bind (Keeps.modify fun s h => h.frame rfl) fun _ => ?_
    exact Keeps.modify fun s h => h.frame rfl

theorem keeps_atomicEffect (hV : rt.repo.Transactional V) (hC : rt.cache.Honest holds)
    (hdoc : rt.doc.KeysLowered) {e : Effect} (he : e ∈ rt.doc.effects) :
    Keeps (ReadThrough V holds rt.doc Past Nowhere) (atomicEffect rt call e) := by
  cases e with
  | networkCall id target pathArgs bodyMap result => exact Keeps.pure _
  | assignment id binding field expression aggFieldType => exact keeps_assignment hV _ _ _ _
  | validation id rule target => exact Keeps.ofExcept _
  | query id entity predicate order limit => exact keeps_query hV _ _ _ _
  | repositoryCall id entity op lookup cached result => exact keeps_repositoryCall hV hC hdoc he
  | cacheAccess id op key => exact keeps_cacheAccess hC hdoc he
  | authorization id requirement => exact Keeps.pure _
  | eventEmit id event payloadMap => exact keeps_eventEmit hV _ _ _
  | response id refs aggTerms listTerm => exact Keeps.pure _
  | annotated id template refs => exact Keeps.pure _
  | rejection id code => exact Keeps.throw _

/-- Every effect of the document keeps the entries accounted for. -/
theorem effectInvariant_readThrough (hV : rt.repo.Transactional V) (hC : rt.cache.Honest holds)
    (hdoc : rt.doc.KeysLowered) {declared : List Step}
    (hdeclared : ∀ step ∈ declared, ∀ e ∈ step.effects, e ∈ rt.doc.effects) :
    EffectInvariant rt call declared (ReadThrough V holds rt.doc Past Nowhere) where
  effect step hstep e he := by
    refine keeps_runEffect (keeps_atomicEffect hV hC hdoc (hdeclared step hstep e he))
      (keeps_networkCall (fun _ _ h => h.frame rfl) (fun _ _ h => h.frame rfl)
        fun _ _ _ h => h.frame rfl) fun s h => h.frame rfl
  advance ms s h := h.frame rfl
  log level message fields s h := h.frame rfl
  cancelEvent b s h := h.frame rfl

end Effects

end Lnpl.Interp
