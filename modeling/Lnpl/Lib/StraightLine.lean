import Mathlib.Data.List.Nodup
import Lnpl.Lib.Results

/-!
# Straight-line code with named results

An instruction applies an operation to the values of its arguments and may name its result.  Names
are what they are printed as: two names of one text are one.  Where every text is given to one
result only, what is bound stays bound, so a run of two parts is put together from runs of either.
-/

namespace Lnpl.Lib

variable {ν κ σ α ε : Type*}

structure Instr (ν σ : Type*) where
  dest : Option ν
  op : σ
  args : List ν

/-- The printed names, what an operation computes, and the error of a name that is not bound. -/
structure Machine (ν κ σ α ε : Type*) where
  text : ν → κ
  eval : σ → List α → Except ε α
  unbound : ε

/-! ### Environments -/

/-- What the one environment binds is bound to the same value in the other. -/
def Extends [DecidableEq κ] (env env' : List (κ × α)) : Prop :=
  ∀ k v, env.lookup k = some v → env'.lookup k = some v

section
variable [DecidableEq κ] {env env' env'' : List (κ × α)}

theorem Extends.refl (env : List (κ × α)) : Extends env env := fun _ _ h => h

theorem Extends.trans (h : Extends env env') (h' : Extends env' env'') : Extends env env'' :=
  fun k v hk => h' k v (h k v hk)

variable {k : κ} {v : α} {ks : List κ}

theorem mem_keys_of_lookup (h : env.lookup k = some v) : k ∈ env.map Prod.fst := by
  induction env with
  | nil => cases h
  | cons entry env ih =>
    obtain ⟨k', v'⟩ := entry
    rw [List.map_cons]
    by_cases hk : k = k'
    · rw [hk]
      exact List.mem_cons_self
    · rw [List.lookup_cons, beq_false_of_ne hk] at h
      exact List.mem_cons_of_mem k' (ih h)

theorem extends_cons (v : α) (h : k ∉ env.map Prod.fst) : Extends env ((k, v) :: env) := by
  intro k' v' hlookup
  have hne : k' ≠ k := by
    rintro rfl
    exact h (mem_keys_of_lookup hlookup)
  rw [List.lookup_cons, beq_false_of_ne hne]
  exact hlookup

/-- The values of some names, if all of them are bound. -/
def lookupAll (env : List (κ × α)) : List κ → Option (List α)
  | [] => some []
  | k :: ks =>
    match env.lookup k, lookupAll env ks with
    | some v, some vs => some (v :: vs)
    | _, _ => none

variable {vs : List α}

/-- A list of names has the list of their values. -/
theorem lookupAll_eq_some :
    lookupAll env ks = some vs ↔ List.Forall₂ (fun k v => env.lookup k = some v) ks vs := by
  induction ks generalizing vs with
  | nil =>
    rw [List.forall₂_nil_left_iff]
    exact ⟨fun h => (Option.some.inj h).symm, fun h => congrArg some h.symm⟩
  | cons k ks ih =>
    rw [List.forall₂_cons_left_iff]
    simp only [← ih]
    rw [Lib.lookupAll]
    cases env.lookup k with
    | none => simp
    | some v =>
      cases lookupAll env ks with
      | none => simp
      | some vs => simp [eq_comm]

/-- The values of the names of a list that has one. -/
theorem lookupAll_cons_eq_some :
    lookupAll env (k :: ks) = some (v :: vs) ↔
      env.lookup k = some v ∧ lookupAll env ks = some vs := by
  rw [lookupAll_eq_some, lookupAll_eq_some, List.forall₂_cons]

theorem lookupAll_cons (h : env.lookup k = some v) (hs : lookupAll env ks = some vs) :
    lookupAll env (k :: ks) = some (v :: vs) :=
  lookupAll_cons_eq_some.mpr ⟨h, hs⟩

theorem length_of_lookupAll (h : lookupAll env ks = some vs) : vs.length = ks.length :=
  (lookupAll_eq_some.mp h).length_eq.symm

theorem Extends.lookupAll (h : Extends env env') (hvs : Lib.lookupAll env ks = some vs) :
    Lib.lookupAll env' ks = some vs :=
  lookupAll_eq_some.mpr ((lookupAll_eq_some.mp hvs).imp h)

theorem mem_keys_of_lookupAll (h : lookupAll env ks = some vs) :
    ∀ k ∈ ks, k ∈ env.map Prod.fst := by
  induction lookupAll_eq_some.mp h with
  | nil => exact fun k hk => nomatch hk
  | cons hv hvs ih =>
    exact List.forall_mem_cons.mpr ⟨mem_keys_of_lookup hv, ih (lookupAll_eq_some.mpr hvs)⟩

end

/-! ### Runs -/

namespace Machine

section
variable [DecidableEq κ] (m : Machine ν κ σ α ε)

/-- One instruction; the newest binding stands first. -/
def exec (env : List (κ × α)) (i : Instr ν σ) : Except ε (List (κ × α)) :=
  match lookupAll env (i.args.map m.text) with
  | none => .error m.unbound
  | some vals =>
    match m.eval i.op vals with
    | .error e => .error e
    | .ok v =>
      match i.dest with
      | none => .ok env
      | some d => .ok ((m.text d, v) :: env)

def run (env : List (κ × α)) : List (Instr ν σ) → Except ε (List (κ × α))
  | [] => .ok env
  | i :: rest =>
    match m.exec env i with
    | .error e => .error e
    | .ok env => run env rest

end

variable (m : Machine ν κ σ α ε)

/-- The texts of the named results. -/
def results (is : List (Instr ν σ)) : List κ := is.filterMap fun i => i.dest.map m.text

/-- Every argument is known or the result of an instruction before. -/
def Defined (known : List κ) : List (Instr ν σ) → Prop
  | [] => True
  | i :: rest => (∀ a ∈ i.args, m.text a ∈ known) ∧ Defined (known ++ m.results [i]) rest

/-- No result has the text of a bound name or of another result. -/
def Fresh (env : List (κ × α)) (is : List (Instr ν σ)) : Prop :=
  (env.map Prod.fst ++ m.results is).Nodup

variable {m} {env env' : List (κ × α)} {i : Instr ν σ} {is is' : List (Instr ν σ)}

theorem results_append (is is' : List (Instr ν σ)) :
    m.results (is ++ is') = m.results is ++ m.results is' :=
  List.filterMap_append

theorem results_cons (i : Instr ν σ) (is : List (Instr ν σ)) :
    m.results (i :: is) = m.results [i] ++ m.results is :=
  results_append [i] is

variable {d : ν} {P : List (κ × α) → Prop} {vals : List α}

theorem results_named (h : i.dest = some d) : m.results [i] = [m.text d] := by
  unfold results
  rw [List.filterMap_cons, h]
  rfl

theorem results_unnamed (h : i.dest = none) : m.results [i] = [] := by
  unfold results
  rw [List.filterMap_cons, h]
  rfl

theorem Fresh.left (h : m.Fresh env (is ++ is')) : m.Fresh env is := by
  unfold Fresh at *
  rw [results_append, ← List.append_assoc] at h
  exact (List.nodup_append.mp h).1

variable [DecidableEq κ]

/-- What an instruction has done. -/
theorem exec_eq_ok : m.exec env i = .ok env' ↔
    ∃ vals v, lookupAll env (i.args.map m.text) = some vals ∧
      m.eval i.op vals = .ok v ∧
      env' = (i.dest.map fun d => (m.text d, v)).toList ++ env := by
  unfold exec
  cases lookupAll env (i.args.map m.text) with
  | none => simp
  | some vals =>
    dsimp only
    cases heval : m.eval i.op vals with
    | error e => simp [heval]
    | ok v =>
      simp only [Option.some.injEq, exists_eq_left', exists_and_left, heval, Except.ok.injEq]
      cases i.dest with
      | none => simp [eq_comm]
      | some d => simp [eq_comm]

theorem run_cons (env : List (κ × α)) (i : Instr ν σ) (is : List (Instr ν σ)) :
    m.run env (i :: is) = m.exec env i >>= fun mid => m.run mid is := by
  conv => lhs; unfold run
  cases m.exec env i with
  | error e => rfl
  | ok mid => rfl

theorem run_append (env : List (κ × α)) (is is' : List (Instr ν σ)) :
    m.run env (is ++ is') = m.run env is >>= fun mid => m.run mid is' := by
  induction is generalizing env with
  | nil => rfl
  | cons i is ih =>
    rw [List.cons_append, run_cons, run_cons, bind_assoc]
    simp only [ih]

theorem run_cons_eq_ok : m.run env (i :: is) = .ok env' ↔
    ∃ mid, m.exec env i = .ok mid ∧ m.run mid is = .ok env' := by
  rw [run_cons, bind_eq_ok]

theorem run_append_eq_ok : m.run env (is ++ is') = .ok env' ↔
    ∃ mid, m.run env is = .ok mid ∧ m.run mid is' = .ok env' := by
  rw [run_append, bind_eq_ok]

/-- The bound names behind an instruction. -/
theorem keys_exec (h : m.exec env i = .ok env') :
    env'.map Prod.fst = m.results [i] ++ env.map Prod.fst := by
  obtain ⟨vals, v, -, -, rfl⟩ := exec_eq_ok.mp h
  cases hd : i.dest with
  | none => rw [results_unnamed hd]; rfl
  | some d => rw [results_named hd]; rfl

/-- The bound names behind a run are those before it and the results. -/
theorem keys_run (h : m.run env is = .ok env') :
    (env'.map Prod.fst).Perm (env.map Prod.fst ++ m.results is) := by
  induction is generalizing env with
  | nil =>
    rw [← Except.ok.inj h]
    show (env.map Prod.fst).Perm (env.map Prod.fst ++ [])
    rw [List.append_nil]
  | cons i is ih =>
    obtain ⟨mid, hexec, hrun⟩ := run_cons_eq_ok.mp h
    have hmid := ih hrun
    rw [keys_exec hexec] at hmid
    rw [results_cons, ← List.append_assoc]
    exact hmid.trans (List.perm_append_comm.append_right _)

theorem Fresh.right (h : m.Fresh env (is ++ is')) (hrun : m.run env is = .ok env') :
    m.Fresh env' is' := by
  unfold Fresh at *
  rw [results_append, ← List.append_assoc] at h
  exact ((keys_run hrun).append_right _).nodup_iff.mpr h

/-- What is bound before a run is bound behind it. -/
theorem extends_run (hfresh : m.Fresh env is) (h : m.run env is = .ok env') :
    Extends env env' := by
  induction is generalizing env with
  | nil =>
    rw [← Except.ok.inj h]
    exact .refl env
  | cons i is ih =>
    obtain ⟨mid, hexec, hrun⟩ := run_cons_eq_ok.mp h
    have hone : m.run env [i] = .ok mid := run_cons_eq_ok.mpr ⟨mid, hexec, rfl⟩
    have happend : m.Fresh env ([i] ++ is) := hfresh
    have hfirst : Extends env mid := by
      have hleft : m.Fresh env [i] := happend.left
      obtain ⟨vals, v, -, -, rfl⟩ := exec_eq_ok.mp hexec
      unfold Fresh at hleft
      cases hd : i.dest with
      | none => exact .refl env
      | some d =>
        rw [results_named hd] at hleft
        apply extends_cons
        intro hmem
        exact (List.nodup_append.mp hleft).2.2 _ hmem _ List.mem_cons_self rfl
    exact hfirst.trans (ih (happend.right hone) hrun)

/-- A run that is not stopped has found every argument defined. -/
theorem defined_of_run {known : List κ} (h : m.run env is = .ok env')
    (hknown : ∀ k ∈ env.map Prod.fst, k ∈ known) : m.Defined known is := by
  induction is generalizing env known with
  | nil => trivial
  | cons i is ih =>
    obtain ⟨mid, hexec, hrun⟩ := run_cons_eq_ok.mp h
    constructor
    · obtain ⟨vals, v, hargs, -, -⟩ := exec_eq_ok.mp hexec
      intro a ha
      exact hknown _ (mem_keys_of_lookupAll hargs _ (List.mem_map_of_mem ha))
    · apply ih hrun
      intro k hk
      rw [keys_exec hexec] at hk
      rcases List.mem_append.mp hk with hk | hk
      · exact List.mem_append_right _ hk
      · exact List.mem_append_left _ (hknown k hk)

/-! ### Rules -/

variable (m) in
/-- The run goes through, keeps what is bound and ends in `Q`. -/
def Reaches (env : List (κ × α)) (is : List (Instr ν σ)) (Q : List (κ × α) → Prop) : Prop :=
  ∃ env', m.run env is = .ok env' ∧ Extends env env' ∧ Q env'

variable {Q : List (κ × α) → Prop}

theorem Reaches.nil (h : Q env) : m.Reaches env [] Q :=
  ⟨env, rfl, .refl env, h⟩

theorem Reaches.mono (h : m.Reaches env is P) (hPQ : ∀ env', Extends env env' → P env' → Q env') :
    m.Reaches env is Q := by
  obtain ⟨env', hrun, hext, hP⟩ := h
  exact ⟨env', hrun, hext, hPQ env' hext hP⟩

/-- Two parts are run one after the other. -/
theorem Reaches.append (hfresh : m.Fresh env (is ++ is')) (h : m.Fresh env is → m.Reaches env is P)
    (h' : ∀ mid, Extends env mid → P mid → m.Fresh mid is' → m.Reaches mid is' Q) :
    m.Reaches env (is ++ is') Q := by
  obtain ⟨mid, hrun, hext, hP⟩ := h hfresh.left
  obtain ⟨env', hrun', hext', hQ⟩ := h' mid hext hP (hfresh.right hrun)
  exact ⟨env', run_append_eq_ok.mpr ⟨mid, hrun, hrun'⟩, hext.trans hext', hQ⟩

/-- An instruction whose arguments are bound and whose operation has a value. -/
theorem Reaches.named {v : α} (hfresh : m.Fresh env [i]) (hdest : i.dest = some d)
    (hargs : lookupAll env (i.args.map m.text) = some vals) (heval : m.eval i.op vals = .ok v) :
    m.Reaches env [i] fun env' => env'.lookup (m.text d) = some v := by
  have hexec : m.exec env i = .ok ((m.text d, v) :: env) := by
    rw [exec_eq_ok]
    exact ⟨vals, v, hargs, heval, by rw [hdest]; rfl⟩
  have hrun : m.run env [i] = .ok ((m.text d, v) :: env) := run_cons_eq_ok.mpr ⟨_, hexec, rfl⟩
  exact ⟨_, hrun, extends_run hfresh hrun, List.lookup_cons_self⟩

theorem Reaches.unnamed {v : α} (hdest : i.dest = none)
    (hargs : lookupAll env (i.args.map m.text) = some vals) (heval : m.eval i.op vals = .ok v) :
    m.Reaches env [i] fun env' => env' = env := by
  have hexec : m.exec env i = .ok env := by
    rw [exec_eq_ok]
    exact ⟨vals, v, hargs, heval, by rw [hdest]; rfl⟩
  exact ⟨env, run_cons_eq_ok.mpr ⟨env, hexec, rfl⟩, .refl env, rfl⟩

end Machine

end Lnpl.Lib
