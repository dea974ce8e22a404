import Mathlib.Data.List.Pairwise
import Lnpl.Front.Lexer

/-!
# The outbox of `SqliteRepositoryDriver`

The table `lnpl_outbox` and the statements on it.  `seq` is `AUTOINCREMENT`: it comes from
`sqlite_sequence`, which is part of the store and is rolled back with it.  A stored payload is the
JSON text that `_encode` made of it; `P` stands for it.
-/

namespace Lnpl.Drivers.Emissions

open Lnpl.Front (int64Max)

/-- What `record_emission` is given. -/
structure Emission (P : Type) where
  emissionId : String
  event : String
  payload : P
  deriving DecidableEq, Repr

/-- What a subscriber sees of a row.  `author` is bookkeeping of the model: the run that recorded
it. -/
structure Frame (ρ P : Type) where
  seq : Nat
  emission : Emission P
  author : Option ρ
  deriving DecidableEq, Repr

/-- A row of `lnpl_outbox`. -/
structure Row (ρ P : Type) extends Frame ρ P where
  createdAt : Int
  deliveredAt : Option Int
  deriving DecidableEq, Repr

/-- The table, in the order of its primary key, and the entry of `sqlite_sequence`. -/
structure Outbox (ρ P : Type) where
  rows : List (Row ρ P)
  sequence : Nat
  sorted : rows.Pairwise fun a b => a.seq < b.seq
  pos : ∀ row ∈ rows, 0 < row.seq
  le_sequence : ∀ row ∈ rows, row.seq ≤ sequence
  bounded : sequence ≤ int64Max

variable {ρ P : Type}

/-! ### The statements -/

/-- `_INSERT_OUTBOX`; `none` is `SQLITE_FULL`, when there is no larger `seq`. -/
def insertOutbox (O : Outbox ρ P) (author : ρ) (emission : Emission P) (now : Int) :
    Option (Outbox ρ P) :=
  if h : O.sequence < int64Max then
    some
      { rows := O.rows ++ [⟨⟨O.sequence + 1, emission, some author⟩, now, none⟩]
        sequence := O.sequence + 1
        sorted := by
          rw [List.pairwise_append]
          refine ⟨O.sorted, List.pairwise_singleton _ _, fun a ha b hb => ?_⟩
          obtain rfl := List.mem_singleton.mp hb
          exact Nat.lt_succ_of_le (O.le_sequence a ha)
        pos := by
          intro row hrow
          cases List.mem_append.mp hrow with
          | inl hold => exact O.pos row hold
          | inr hnew =>
            obtain rfl := List.mem_singleton.mp hnew
            exact Nat.succ_pos _
        le_sequence := by
          intro row hrow
          cases List.mem_append.mp hrow with
          | inl hold => exact Nat.le_succ_of_le (O.le_sequence row hold)
          | inr hnew =>
            obtain rfl := List.mem_singleton.mp hnew
            exact Nat.le_refl _
        bounded := h }
  else none

/-- `_SELECT_OUTBOX_SINCE`. -/
def selectOutboxSince (O : Outbox ρ P) (event : String) (afterSeq : Nat) : List (Row ρ P) :=
  O.rows.filter fun row => row.emission.event = event ∧ afterSeq < row.seq

/-- The outbox with the rows changed beside what a subscriber sees of them. -/
def Outbox.modify (O : Outbox ρ P) (f : Row ρ P → Row ρ P) (hf : ∀ row, (f row).seq = row.seq) :
    Outbox ρ P where
  rows := O.rows.map f
  sequence := O.sequence
  sorted := by
    rw [List.pairwise_map]
    simp only [hf]
    exact O.sorted
  pos := by
    intro row hrow
    obtain ⟨row, hmem, rfl⟩ := List.mem_map.mp hrow
    rw [hf]
    exact O.pos row hmem
  le_sequence := by
    intro row hrow
    obtain ⟨row, hmem, rfl⟩ := List.mem_map.mp hrow
    rw [hf]
    exact O.le_sequence row hmem
  bounded := O.bounded

/-- A row after `_MARK_DELIVERED` of `seq`. -/
def Row.marked (now : Int) (seq : Nat) (row : Row ρ P) : Row ρ P :=
  if row.seq = seq ∧ row.deliveredAt = none then { row with deliveredAt := some now } else row

theorem Row.toFrame_marked (now : Int) (seq : Nat) (row : Row ρ P) :
    (row.marked now seq).toFrame = row.toFrame := by
  unfold Row.marked
  split <;> rfl

/-- `_MARK_DELIVERED`. -/
def markDelivered (O : Outbox ρ P) (now : Int) (seq : Nat) : Outbox ρ P :=
  O.modify (Row.marked now seq) fun row => congrArg Frame.seq (row.toFrame_marked now seq)

/-- `ack_outbox`; `none` is the `DriverError` for an unknown `seq`. -/
def ackOutbox (O : Outbox ρ P) (seqs : List Nat) (now : Int) : Option (Outbox ρ P) :=
  if seqs.all fun seq => O.rows.any fun row => row.seq = seq then
    some (seqs.foldl (fun O seq => markDelivered O now seq) O)
  else none

/-- The outbox a run of the system begins with: no run has recorded anything. -/
def Outbox.anonymous (O : Outbox ρ P) : Outbox ρ P :=
  O.modify (fun row => { row with author := none }) fun _ => rfl

/-! ### What a subscriber sees -/

/-- The rows, as a subscriber sees them. -/
def Outbox.frames (O : Outbox ρ P) : List (Frame ρ P) := O.rows.map Row.toFrame

/-- The emissions of an event above a sequence number. -/
def since (frames : List (Frame ρ P)) (event : String) (afterSeq : Nat) : List (Frame ρ P) :=
  frames.filter fun f => f.emission.event = event ∧ afterSeq < f.seq

/-- The emissions a run has recorded. -/
def recordedBy [DecidableEq ρ] (frames : List (Frame ρ P)) (c : ρ) : List (Emission P) :=
  (frames.filter fun f => f.author = some c).map Frame.emission

end Lnpl.Drivers.Emissions
