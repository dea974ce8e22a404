import Mathlib.Data.List.Forall2

/-!
# Dot segments

The removal of dot segments from a path (RFC 3986, 5.2.4): the segments go to an output buffer, `.`
is left out, and `..` is left out with the last segment of the buffer.  `Removed` says of a position
that its segment is not in the output.

Where dot segments take the place of names, nothing more is removed iff every position up to each of
them is removed already (`removed_subset_iff`).
-/

namespace Lnpl.Lib.DotSegments

/-- What a segment does to the output buffer. -/
inductive Kind where
  /-- `.` -/
  | here
  /-- `..` -/
  | up
  | name
  deriving DecidableEq, Repr

/-- The positions in the output buffer, the last first, of the segments from `i` on. -/
def output : ℕ → List ℕ → List Kind → List ℕ
  | _, buffer, [] => buffer
  | i, buffer, .here :: kinds => output (i + 1) buffer kinds
  | i, buffer, .up :: kinds => output (i + 1) buffer.tail kinds
  | i, buffer, .name :: kinds => output (i + 1) (i :: buffer) kinds

/-- The segment at a position does not come to the output. -/
def Removed (kinds : List Kind) (i : ℕ) : Prop := i < kinds.length ∧ i ∉ output 0 [] kinds

instance (kinds : List Kind) (i : ℕ) : Decidable (Removed kinds i) :=
  inferInstanceAs (Decidable (_ ∧ _))

/-! ### From the end -/

/-- How many segments in front of these are taken back by them. -/
def takenBack : List Kind → ℕ
  | [] => 0
  | .here :: kinds => takenBack kinds
  | .up :: kinds => takenBack kinds + 1
  | .name :: kinds => takenBack kinds - 1

theorem output_eq (i : ℕ) (buffer : List ℕ) (kinds : List Kind) :
    output i buffer kinds = output i [] kinds ++ buffer.drop (takenBack kinds) := by
  induction kinds generalizing i buffer with
  | nil => rfl
  | cons kind kinds ih =>
    cases kind with
    | here => exact ih (i + 1) buffer
    | up =>
      rw [output, output, List.tail_nil, ih (i + 1) buffer.tail, takenBack, List.drop_tail]
    | name =>
      rw [output, output, ih (i + 1) (i :: buffer), ih (i + 1) [i], takenBack]
      cases takenBack kinds with
      | zero => simp
      | succ n => simp

variable {i j p : ℕ} {kind : Kind}

/-- A position is in the output iff its segment is a name that nothing behind it takes back. -/
theorem mem_output_iff {kinds : List Kind} :
    j ∈ output i [] kinds ↔
      ∃ k, j = i + k ∧ kinds[k]? = some .name ∧ takenBack (kinds.drop (k + 1)) = 0 := by
  induction kinds generalizing i with
  | nil => simp [output]
  | cons kind kinds ih =>
    have hshift : j ∈ output (i + 1) [] kinds ↔
        ∃ k, j = i + (k + 1) ∧ (kind :: kinds)[k + 1]? = some .name ∧
          takenBack ((kind :: kinds).drop (k + 1 + 1)) = 0 := by
      rw [ih]
      apply exists_congr
      intro k
      rw [List.getElem?_cons_succ, List.drop_succ_cons]
      have hindex : i + 1 + k = i + (k + 1) := by omega
      rw [hindex]
    have hsplit : (∃ k, j = i + k ∧ (kind :: kinds)[k]? = some .name ∧
          takenBack ((kind :: kinds).drop (k + 1)) = 0) ↔
        (j = i ∧ kind = .name ∧ takenBack kinds = 0) ∨ j ∈ output (i + 1) [] kinds := by
      rw [hshift]
      constructor
      · rintro ⟨k, hk⟩
        cases k with
        | zero => exact .inl (by simpa using hk)
        | succ k => exact .inr ⟨k, hk⟩
      · rintro (hhead | ⟨k, hk⟩)
        · exact ⟨0, by simpa using hhead⟩
        · exact ⟨k + 1, hk⟩
    rw [hsplit]
    cases kind with
    | here => simp [output]
    | up => simp [output]
    | name =>
      rw [output, output_eq, List.mem_append]
      cases htaken : takenBack kinds with
      | zero => simp [or_comm]
      | succ n => simp

theorem removed_zero {kinds : List Kind} :
    Removed (kind :: kinds) 0 ↔ (kind = .name → takenBack kinds ≠ 0) := by
  rw [Removed, mem_output_iff]
  constructor
  · rintro ⟨-, hnot⟩ hname htaken
    exact hnot ⟨0, rfl, by rw [hname]; rfl, htaken⟩
  · intro h
    refine ⟨Nat.zero_lt_succ _, ?_⟩
    rintro ⟨k, hk, hname, htaken⟩
    obtain rfl : k = 0 := by omega
    exact h (Option.some.inj hname) htaken

theorem removed_succ {kinds : List Kind} : Removed (kind :: kinds) (i + 1) ↔ Removed kinds i := by
  rw [Removed, Removed, mem_output_iff, mem_output_iff, List.length_cons, Nat.succ_lt_succ_iff]
  apply and_congr_right
  intro _
  apply not_congr
  constructor
  · rintro ⟨k, hk, hname, htaken⟩
    obtain rfl : k = i + 1 := by omega
    exact ⟨i, (Nat.zero_add i).symm, hname, htaken⟩
  · rintro ⟨k, hk, hname, htaken⟩
    obtain rfl : k = i := by omega
    exact ⟨k + 1, (Nat.zero_add (k + 1)).symm, hname, htaken⟩

/-! ### Names that become dot segments -/

/-- A segment stays as it is, or was a name. -/
def Becomes (kind other : Kind) : Prop := other = kind ∨ kind = .name

/-- The segment was a name and is a dot segment. -/
def Changed (kinds others : List Kind) (i : ℕ) : Prop :=
  kinds[i]? = some .name ∧ ∃ other, others[i]? = some other ∧ other ≠ .name

variable {kinds others : List Kind}

section

variable (h : List.Forall₂ Becomes kinds others)
include h

theorem takenBack_le : takenBack kinds ≤ takenBack others := by
  induction h with
  | nil => exact Nat.le_refl _
  | @cons kind other kinds others hkind _ ih =>
    rcases hkind with rfl | rfl
    · cases other <;> simp only [takenBack] <;> omega
    · cases other <;> simp only [takenBack] <;> omega

/-- Where a name has become a dot segment and nothing more is removed, more is taken back. -/
theorem takenBack_lt (hremoved : ∀ i, Removed others i → Removed kinds i)
    (hp : Changed kinds others p) :
    takenBack kinds < takenBack others := by
  induction h generalizing p with
  | nil => cases hp.1
  | @cons kind other kinds others hkind htail ih =>
    have htailRemoved : ∀ i, Removed others i → Removed kinds i := by
      intro i hi
      exact removed_succ.mp (hremoved (i + 1) (removed_succ.mpr hi))
    have hle := takenBack_le htail
    have hhead : kind = .name → takenBack others ≠ 0 → takenBack kinds ≠ 0 := by
      intro hname hother
      exact removed_zero.mp (hremoved 0 (removed_zero.mpr fun _ => hother)) hname
    cases p with
    | zero =>
      -- the changed segment is removed, so something behind it takes it back
      obtain ⟨hname, other', hother, hdot⟩ := hp
      rw [List.getElem?_cons_zero, Option.some.injEq] at hname hother
      rw [← hother] at hdot
      have hpos : takenBack kinds ≠ 0 :=
        removed_zero.mp (hremoved 0 (removed_zero.mpr fun h => absurd h hdot)) hname
      rw [hname]
      cases other with
      | here => simp only [takenBack]; omega
      | up => simp only [takenBack]; omega
      | name => exact absurd rfl hdot
    | succ p =>
      have hlt := ih htailRemoved (p := p) hp
      rcases hkind with hsame | hname
      · cases other with
        | here => rw [← hsame]; exact hlt
        | up => rw [← hsame]; exact Nat.succ_lt_succ hlt
        | name =>
          have hpos := hhead hsame.symm (by omega)
          rw [← hsame]
          simp only [takenBack]
          omega
      · have hpos := hhead hname (by omega)
        rw [hname]
        cases other <;> simp only [takenBack] <;> omega

/-- Up to a name that has become a dot segment, everything was removed before. -/
theorem removed_of_changed (hremoved : ∀ i, Removed others i → Removed kinds i)
    (hp : Changed kinds others p) (hj : j ≤ p) : Removed kinds j := by
  induction h generalizing p j with
  | nil => cases hp.1
  | @cons kind other kinds others hkind htail ih =>
    have htailRemoved : ∀ i, Removed others i → Removed kinds i := by
      intro i hi
      exact removed_succ.mp (hremoved (i + 1) (removed_succ.mpr hi))
    cases j with
    | zero =>
      apply hremoved
      rw [removed_zero]
      intro hname
      cases p with
      | zero =>
        obtain ⟨-, other', hother, hdot⟩ := hp
        rw [List.getElem?_cons_zero, Option.some.injEq] at hother
        exact absurd (hother ▸ hname) hdot
      | succ p =>
        have hlt := takenBack_lt htail htailRemoved (p := p) hp
        omega
    | succ j =>
      cases p with
      | zero => omega
      | succ p => exact removed_succ.mpr (ih htailRemoved (p := p) hp (by omega))

theorem eq_of_unchanged (hunchanged : ∀ p, ¬Changed kinds others p) : kinds = others := by
  induction h with
  | nil => rfl
  | @cons kind other kinds others hkind htail ih =>
    have hrest : kinds = others := ih fun p hp => hunchanged (p + 1) hp
    have hhead : kind = other := by
      rcases hkind with hsame | hname
      · exact hsame.symm
      · by_contra hne
        exact hunchanged 0 ⟨congrArg some hname, other, rfl, fun h => hne (hname.trans h.symm)⟩
    rw [hhead, hrest]

/-- Behind the last changed segment, nothing more is removed. -/
theorem removed_of_unchanged (hi : ∀ p, i ≤ p → ¬Changed kinds others p)
    (hremoved : Removed others i) :
    Removed kinds i := by
  induction h generalizing i with
  | nil => exact hremoved
  | @cons kind other kinds others hkind htail ih =>
    cases i with
    | zero =>
      have hsame := eq_of_unchanged (.cons hkind htail) fun p => hi p (Nat.zero_le p)
      rw [hsame]
      exact hremoved
    | succ i =>
      apply removed_succ.mpr
      apply ih
      · intro p hp hchanged
        exact hi (p + 1) (by omega) hchanged
      · exact removed_succ.mp hremoved

/-- **Nothing more is removed** iff all up to a name that has become a dot segment was removed
before. -/
theorem removed_subset_iff :
    (∀ i, Removed others i → Removed kinds i) ↔
      ∀ p, Changed kinds others p → ∀ j ≤ p, Removed kinds j := by
  constructor
  · intro hremoved p hp j hj
    exact removed_of_changed h hremoved hp hj
  · intro hchanged i hi
    by_cases hbehind : ∃ p, i ≤ p ∧ Changed kinds others p
    · obtain ⟨p, hp, hpchanged⟩ := hbehind
      exact hchanged p hpchanged i hp
    · apply removed_of_unchanged h
      · intro p hp hpchanged
        exact hbehind ⟨p, hp, hpchanged⟩
      · exact hi

end

end Lnpl.Lib.DotSegments
