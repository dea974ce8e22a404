import Lnpl.Interp.SharedCache

/-!
# Invalidation after the commit

When is it effective?  `Effective`: no `cached` read is answered with a row from before a commit
whose invalidation has returned.  The one call that can break it is the `cache.set` of a miss that
read the row before that commit; as long as no such call is made (`Timely`) every state is
effective, and the first one that is made leaves a state that is not (`effective_iff_timely`).

The calls of a run that is not interrupted are those the interpreter makes (`fetch_readCalls`,
`closing_commitCalls`).
-/

namespace Lnpl.Interp.SharedCache

open Lnpl.Lib

variable {ι : Type} {s s' : State ι} {a : Action ι} {i : ι} {row : Option Stored}

/-- No `cached` read has been answered with a row from before a commit whose invalidation had
returned, nor is one that begins now. -/
def Effective (s : State ι) : Prop := ∀ answer ∈ s.answers ++ s.hit.toList, answer.fresh

/-- The row that a `cache.set` puts into the cache was read after every commit whose invalidation
has returned. -/
def Timely (s : State ι) : Action ι → Prop
  | .set i => ∀ entry floor, s.phase i = .fetched entry floor → s.floor ≤ entry.version
  | _ => True

/-! ### The invariant -/

/-- What a run under way has seen. -/
def Phase.Seen (floor version : Nat) : Phase → Prop
  | .idle => True
  | .missed f => f ≤ floor
  | .fetched entry f => f ≤ entry.version ∧ entry.version ≤ version
  | .committed v => v ≤ version

/-- What holds in every state of a run of timely calls. -/
structure Inv (s : State ι) : Prop where
  floor : s.floor ≤ s.version
  cached : ∀ entry, s.cached = some entry → s.floor ≤ entry.version
  phase : ∀ i, (s.phase i).Seen s.floor s.version
  answers : ∀ answer ∈ s.answers, answer.fresh

theorem Inv.effective (h : Inv s) : Effective s := by
  intro answer hanswer
  rcases List.mem_append.mp hanswer with hold | hhit
  · exact h.answers answer hold
  · rw [Option.mem_toList, State.hit, Option.map_eq_some_iff] at hhit
    obtain ⟨entry, hentry, rfl⟩ := hhit
    exact h.cached entry hentry

theorem inv_init (row : Option Stored) : Inv (State.init row : State ι) where
  floor := Nat.le_refl 0
  cached _ h := nomatch h
  phase _ := trivial
  answers _ h := nomatch h

variable {floor floor' version version' : Nat} {p : Phase}

/-- Later commits and invalidations take nothing back. -/
theorem Phase.Seen.mono (h : p.Seen floor version) (hfloor : floor ≤ floor')
    (hversion : version ≤ version') :
    p.Seen floor' version' := by
  cases p with
  | idle => trivial
  | missed f => exact Nat.le_trans h hfloor
  | fetched entry f => exact ⟨h.1, Nat.le_trans h.2 hversion⟩
  | committed v => exact Nat.le_trans h hversion

variable [DecidableEq ι]

/-- The phase of one run changes, and what the others have seen grows. -/
theorem seen_update {f : ι → Phase} (h : ∀ j, (f j).Seen floor version)
    (hp : p.Seen floor' version') (hfloor : floor ≤ floor') (hversion : version ≤ version')
    (j : ι) :
    (Function.update f i p j).Seen floor' version' := by
  by_cases hj : j = i
  · subst hj
    rw [Function.update_self]
    exact hp
  · rw [Function.update_of_ne hj]
    exact (h j).mono hfloor hversion

/-! ### What a call keeps -/

theorem Inv.get (h : Inv s) (i : ι) : Inv (s.get i) := by
  unfold State.get
  split
  · next answer hhit =>
    refine ⟨h.floor, h.cached, h.phase, fun a ha => ?_⟩
    rcases List.mem_append.mp ha with hold | hnew
    · exact h.answers a hold
    · rw [List.mem_singleton.mp hnew]
      refine h.effective answer (List.mem_append_right _ ?_)
      rw [hhit]
      exact List.mem_cons_self
  · exact ⟨h.floor, h.cached, seen_update h.phase (Nat.le_refl _) (Nat.le_refl _) (Nat.le_refl _),
      h.answers⟩

theorem Inv.read (h : Inv s) (hi : s.phase i = .missed floor) : Inv (s.read i floor) := by
  have hseen : floor ≤ s.floor := by
    have := h.phase i
    rwa [hi] at this
  unfold State.read
  split
  · next row hrow =>
    refine ⟨h.floor, h.cached, seen_update h.phase ?_ (Nat.le_refl _) (Nat.le_refl _), h.answers⟩
    exact ⟨Nat.le_trans hseen h.floor, Nat.le_refl _⟩
  · exact ⟨h.floor, h.cached, seen_update h.phase trivial (Nat.le_refl _) (Nat.le_refl _), h.answers⟩

/-- A timely `cache.set` leaves an entry that no invalidation has come too early for. -/
theorem Inv.set (h : Inv s) {entry : Entry} (hi : s.phase i = .fetched entry floor)
    (htimely : s.floor ≤ entry.version) : Inv (s.set i entry floor) := by
  have hseen : floor ≤ entry.version ∧ entry.version ≤ s.version := by
    have := h.phase i
    rwa [hi] at this
  refine ⟨h.floor, ?_, seen_update h.phase trivial (Nat.le_refl _) (Nat.le_refl _), fun a ha => ?_⟩
  · rintro _ ⟨⟩
    exact htimely
  · rcases List.mem_append.mp ha with hold | hnew
    · exact h.answers a hold
    · rw [List.mem_singleton.mp hnew]
      exact hseen.1

theorem Inv.commit (h : Inv s) (i : ι) (row : Option Stored) : Inv (s.commit i row) where
  floor := Nat.le_succ_of_le h.floor
  cached := h.cached
  phase := seen_update h.phase (Nat.le_refl (s.version + 1)) (Nat.le_refl _) (Nat.le_succ _)
  answers := h.answers

theorem Inv.invalidate (h : Inv s) (hi : s.phase i = .committed version) :
    Inv (s.invalidate i version) where
  floor := by
    have hseen : version ≤ s.version := by
      have := h.phase i
      rwa [hi] at this
    exact Nat.max_le.mpr ⟨h.floor, hseen⟩
  cached _ hentry := nomatch hentry
  phase := seen_update h.phase trivial (Nat.le_max_left _ _) (Nat.le_refl _)
  answers := h.answers

/-- **Step lemma.** -/
theorem inv_step (h : Inv s) (htimely : Timely s a) (hstep : step s a = some s') : Inv s' := by
  cases a with
  | get i =>
    simp only [step] at hstep
    split at hstep
    · obtain rfl := Option.some.inj hstep
      exact h.get i
    · cases hstep
  | read i =>
    simp only [step] at hstep
    split at hstep
    · next floor hi =>
      obtain rfl := Option.some.inj hstep
      exact h.read hi
    · cases hstep
  | set i =>
    simp only [step] at hstep
    split at hstep
    · next entry floor hi =>
      obtain rfl := Option.some.inj hstep
      exact h.set hi (htimely entry floor hi)
    · cases hstep
  | commit i row =>
    simp only [step] at hstep
    split at hstep
    · obtain rfl := Option.some.inj hstep
      exact h.commit i row
    · cases hstep
  | invalidate i =>
    simp only [step] at hstep
    split at hstep
    · next version hi =>
      obtain rfl := Option.some.inj hstep
      exact h.invalidate hi
    · cases hstep
  | expire =>
    obtain rfl := Option.some.inj hstep
    exact ⟨h.floor, nofun, h.phase, h.answers⟩

/-- A `cache.set` that is not timely leaves a state that is not effective. -/
theorem timely_of_effective (hstep : step s a = some s') (h : Effective s') : Timely s a := by
  cases a with
  | set i =>
    intro entry floor hi
    simp only [step, hi, Option.some.injEq] at hstep
    subst hstep
    exact h ⟨entry, s.floor⟩ (List.mem_append_right _ List.mem_cons_self)
  | get i => trivial
  | read i => trivial
  | commit i row => trivial
  | invalidate i => trivial
  | expire => trivial

/-- **Invalidation after the commit** is effective exactly as long as no run puts into the cache what
it read before a commit whose invalidation has returned: in every run of any number of `cached`
reads and writers that has made no such call so far, the next call keeps every later `cached` read
from being answered with a row from before such a commit, if and only if it is no such call
either. -/
theorem effective_iff_timely (row : Option Stored) (hrun : Reaches step Timely (State.init row) s)
    (hstep : step s a = some s') : Effective s' ↔ Timely s a :=
  ⟨timely_of_effective hstep, fun htimely =>
    (inv_step (hrun.invariant inv_step (inv_init row)) htimely hstep).effective⟩

/-! ### A stale entry -/

/-- A row that is told apart by one field. -/
def numbered (n : Int) : Stored := { data := (∅ : Dict).insert "n" (.int n) }

/-- **A stale entry.**  Run 0 misses and reads the row; run 1 commits another row and invalidates
the key; then run 0 puts the old row into the cache, and run 2 is answered with it. -/
theorem invalidation_not_effective :
    ¬∀ s : State (Fin 3), Reaches step anyAction (State.init (some (numbered 0))) s → Effective s := by
  intro h
  have hrun : exec step (State.init (some (numbered 0)) : State (Fin 3))
      [.get 0, .read 0, .commit 1 (some (numbered 1)), .invalidate 1, .set 0, .get 2] = some _ := rfl
  have hlast : (1 : Nat) ≤ 0 := h _ (reaches_of_exec hrun) ⟨⟨(numbered 0).strip, 0⟩, 1⟩
    (List.mem_append_left _ (List.mem_cons_of_mem _ List.mem_cons_self))
  omega

/-- The state after the commit and the invalidation of run 1, and the two calls of a miss. -/
def readAfterCommit : State (Fin 2) :=
  (exec step (State.init (some (numbered 0)))
    [.commit 1 (some (numbered 1)), .invalidate 1, .get 0, .read 0]).get rfl

/-- A run that puts the row into the cache that it has read after the commit. -/
theorem effective_iff_timely_set :
    ∃ s', step readAfterCommit (.set 0) = some s' ∧ s'.floor = 1 ∧
      (Effective s' ↔ Timely readAfterCommit (.set 0)) := by
  refine ⟨_, rfl, rfl, effective_iff_timely (some (numbered 0)) ?_ rfl⟩
  exact (((Reaches.refl.tail (a := .commit 1 (some (numbered 1))) trivial rfl).tail
    (a := .invalidate 1) trivial rfl).tail (a := .get 0) trivial rfl).tail (a := .read 0) trivial rfl

/-! ### Runs that are not interrupted -/

/-- What the calls between two states have read. -/
def found (s s' : State ι) : Found :=
  match s'.answers.drop s.answers.length with
  | [] => .none
  | answer :: _ => .dict answer.row

variable {ν : Type}

/-- A `cached` read of the interpreter makes the calls of a read. -/
theorem fetch_readCalls (rt : Runtime RowSlot (Option Stored) ν) (call : Call) (e k : String)
    (hrepo : rt.repo = RowSlot.repo) (hcache : rt.cache = slotCache) (hi : s.phase i = .idle)
    (x : Exec RowSlot (Option Stored) ν) (hrow : x.repo.current = s.row)
    (hcached : x.cache = s.cached.map Entry.row) :
    ∃ s', exec step s (readCalls s i) = some s' ∧ ∃ t,
      fetch rt call e .read k true x = .ok (found s s') t ∧
        t.repo = x.repo ∧ t.cache = s'.cached.map Entry.row := by
  obtain ⟨doc, lang, repo, cache, network, caller⟩ := rt
  obtain rfl : repo = RowSlot.repo := hrepo
  obtain rfl : cache = slotCache := hcache
  obtain ⟨⟨committed, current⟩, cache⟩ := x
  obtain rfl : current = s.row := hrow
  obtain rfl : cache = s.cached.map Entry.row := hcached
  cases hc : s.cached with
  | some entry =>
    have hget : s.get i = { s with answers := s.answers ++ [⟨entry, s.floor⟩] } := by
      rw [State.get, State.hit, hc]
      rfl
    refine ⟨s.get i, ?_, ?_⟩
    · simp only [readCalls, hc, exec, step, hi, Option.bind_some]
    · rw [hget, found, List.drop_left]
      refine ⟨_, rfl, rfl, ?_⟩
      show some entry.row = s.cached.map Entry.row
      rw [hc, Option.map_some]
  | none =>
    have hget : s.get i = { s with phase := Function.update s.phase i (.missed s.floor) } := by
      rw [State.get, State.hit, hc]
      rfl
    cases hr : s.row with
    | none =>
      refine ⟨(s.get i).read i s.floor, ?_, ?_⟩
      · simp only [readCalls, hc, hr, exec, step, hi, hget, Function.update_self, Option.bind_some]
      · rw [hget, State.read, hr, found, List.drop_length]
        refine ⟨_, rfl, rfl, ?_⟩
        show none = s.cached.map Entry.row
        rw [hc, Option.map_none]
    | some row =>
      refine ⟨((s.get i).read i s.floor).set i ⟨row.strip, s.version⟩ s.floor, ?_, ?_⟩
      · simp only [readCalls, hc, hr, exec, step, hi, hget, State.read, Function.update_self,
          Option.bind_some]
      · rw [hget, State.read, hr, State.set, found, List.drop_left]
        exact ⟨_, rfl, rfl, rfl⟩

/-- The end of a run that completes makes the calls of a commit, where it has written under the key
alone. -/
theorem closing_commitCalls (rt : Runtime RowSlot (Option Stored) ν) (k : String)
    (hrepo : rt.repo = RowSlot.repo) (hcache : rt.cache = slotCache) (hi : s.phase i = .idle)
    (x : Session RowSlot (Option Stored) ν) (hkeys : x.run.exec.readThroughInvalidations = [k]) :
    ∃ s', exec step s (commitCalls i x.run.exec.repo.current) = some s' ∧ ∃ t,
      (do boundary rt .commit; onRun (onExec (invalidateWrittenAfterCommit rt))) x = .ok () t ∧
        t.run.exec.repo.committed = s'.row ∧ t.run.exec.cache = s'.cached.map Entry.row := by
  obtain ⟨doc, lang, repo, cache, network, caller⟩ := rt
  obtain rfl : repo = RowSlot.repo := hrepo
  obtain rfl : cache = slotCache := hcache
  refine ⟨(s.commit i x.run.exec.repo.current).invalidate i (s.version + 1), ?_, ?_⟩
  · simp only [commitCalls, exec, step, hi, State.commit, Function.update_self, Option.bind_some]
  · obtain ⟨⟨x, _⟩, _⟩ := x
    obtain ⟨repo, cache, network, now, bindings, rowsets, bindingKeys, writes, keys⟩ := x
    obtain rfl : keys = [k] := hkeys
    exact ⟨_, rfl, rfl, rfl⟩

end Lnpl.Interp.SharedCache
