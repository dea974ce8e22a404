import Lnpl.Cli.Relay

/-!
# Passes of the relay

The batches of a pass make progress through the undelivered rows as long as no request is
interrupted, and the last one reaches every row behind fewer failing rows than the limit.  A request
that is interrupted ends the pass and takes the acknowledgements of its batch with it.
-/

namespace Lnpl.Cli

open Drivers.Emissions (Outbox Row ackOutbox markDelivered)
open Lib (Progress afterBatch)

variable {ρ P ε : Type}

/-! ### Acknowledgements -/

theorem marked_seq (now : Int) (seq : Nat) (row : Row ρ P) : (row.marked now seq).seq = row.seq :=
  congrArg Drivers.Emissions.Frame.seq (row.toFrame_marked now seq)

variable {now : Int} {seq : Nat}

theorem marked_of_ne {row : Row ρ P} (h : row.seq ≠ seq) : row.marked now seq = row :=
  if_neg fun hrow => h hrow.1

theorem marked_delivered {row : Row ρ P} (h : row.deliveredAt ≠ none) : row.marked now seq = row :=
  if_neg fun hrow => h hrow.2

theorem deliveredAt_marked {row : Row ρ P} (h : row.seq = seq) :
    (row.marked now seq).deliveredAt ≠ none := by
  by_cases hnone : row.deliveredAt = none
  · unfold Row.marked
    rw [if_pos ⟨h, hnone⟩]
    exact Option.some_ne_none now
  · rw [marked_delivered hnone]
    exact hnone

theorem rows_markDelivered (O : Outbox ρ P) (now : Int) (seq : Nat) :
    (markDelivered O now seq).rows = O.rows.map (Row.marked now seq) :=
  rfl

theorem undelivered_markDelivered (O : Outbox ρ P) (now : Int) (seq : Nat) :
    undelivered (markDelivered O now seq) = (undelivered O).filter fun row => row.seq ≠ seq := by
  unfold undelivered
  rw [rows_markDelivered]
  induction O.rows with
  | nil => rfl
  | cons row rows ih =>
    rw [List.map_cons, List.filter_cons, List.filter_cons, ih]
    by_cases hseq : row.seq = seq
    · have hmarked : (row.marked now seq).deliveredAt.isNone = false :=
        Option.isNone_eq_false_iff.mpr (Option.isSome_iff_ne_none.mpr (deliveredAt_marked hseq))
      rw [hmarked, if_neg Bool.false_ne_true]
      cases row.deliveredAt.isNone with
      | true => rw [if_pos rfl, List.filter_cons, if_neg (by simpa using hseq)]
      | false => rw [if_neg Bool.false_ne_true]
    · rw [marked_of_ne hseq]
      cases row.deliveredAt.isNone with
      | true => rw [if_pos rfl, if_pos rfl, List.filter_cons, if_pos (by simpa using hseq)]
      | false => rw [if_neg Bool.false_ne_true, if_neg Bool.false_ne_true]

theorem delivered_markDelivered (O : Outbox ρ P) (now : Int) (seq k : Nat) :
    delivered (markDelivered O now seq) k ↔
      delivered O k ∨ k = seq ∧ ∃ row ∈ O.rows, row.seq = seq := by
  unfold delivered
  rw [rows_markDelivered]
  simp only [List.mem_map]
  constructor
  · rintro ⟨_, ⟨row, hrow, rfl⟩, hk, hdelivered⟩
    rw [marked_seq] at hk
    by_cases hseq : row.seq = seq
    · exact .inr ⟨hk.symm.trans hseq, row, hrow, hseq⟩
    · rw [marked_of_ne hseq] at hdelivered
      exact .inl ⟨row, hrow, hk, hdelivered⟩
  · rintro (⟨row, hrow, hk, hdelivered⟩ | ⟨rfl, row, hrow, hseq⟩)
    · refine ⟨row, ⟨row, hrow, marked_delivered hdelivered⟩, hk, hdelivered⟩
    · exact ⟨_, ⟨row, hrow, rfl⟩, (marked_seq _ _ row).trans hseq, deliveredAt_marked hseq⟩

theorem exists_seq_markDelivered (O : Outbox ρ P) (now : Int) (seq k : Nat) :
    (∃ row ∈ (markDelivered O now seq).rows, row.seq = k) ↔ ∃ row ∈ O.rows, row.seq = k := by
  rw [rows_markDelivered]
  simp only [List.mem_map]
  constructor
  · rintro ⟨_, ⟨row, hrow, rfl⟩, hk⟩
    exact ⟨row, hrow, (marked_seq _ _ row).symm.trans hk⟩
  · rintro ⟨row, hrow, hk⟩
    exact ⟨_, ⟨row, hrow, rfl⟩, (marked_seq _ _ row).trans hk⟩

theorem foldl_markDelivered (now : Int) (seqs : List Nat) :
    ∀ O : Outbox ρ P, (∀ seq ∈ seqs, ∃ row ∈ O.rows, row.seq = seq) →
      (undelivered (seqs.foldl (fun O seq => markDelivered O now seq) O) =
        (undelivered O).filter fun row => !decide (row.seq ∈ seqs)) ∧
      ∀ k, delivered (seqs.foldl (fun O seq => markDelivered O now seq) O) k ↔
        delivered O k ∨ k ∈ seqs := by
  induction seqs with
  | nil => intro O _; simp
  | cons seq seqs ih =>
    intro O hknown
    obtain ⟨hseq, hseqs⟩ := List.forall_mem_cons.mp hknown
    obtain ⟨hundelivered, hdelivered⟩ := ih (markDelivered O now seq) fun k hk =>
      (exists_seq_markDelivered O now seq k).mpr (hseqs k hk)
    rw [List.foldl_cons]
    constructor
    · rw [hundelivered, undelivered_markDelivered, List.filter_filter]
      apply List.filter_congr
      intro row _
      simp [Bool.and_comm]
    · intro k
      rw [hdelivered k, delivered_markDelivered, List.mem_cons]
      constructor
      · rintro ((h | ⟨h, -⟩) | h)
        · exact .inl h
        · exact .inr (.inl h)
        · exact .inr (.inr h)
      · rintro (h | h | h)
        · exact .inl (.inl h)
        · exact .inl (.inr ⟨h, hseq⟩)
        · exact .inr h

/-- `ack_outbox` of rows that there are. -/
theorem ackOutbox_known {O : Outbox ρ P} {seqs : List Nat} (now : Int)
    (h : ∀ seq ∈ seqs, ∃ row ∈ O.rows, row.seq = seq) :
    ∃ O', ackOutbox O seqs now = some O' ∧
      (undelivered O' = (undelivered O).filter fun row => !decide (row.seq ∈ seqs)) ∧
      ∀ k, delivered O' k ↔ delivered O k ∨ k ∈ seqs := by
  refine ⟨_, if_pos ?_, foldl_markDelivered now seqs O h⟩
  simpa using h

theorem nodup_seq_undelivered (O : Outbox ρ P) :
    ((undelivered O).map fun row => row.seq).Nodup := by
  have hsorted : (undelivered O).Pairwise fun a b => a.seq < b.seq :=
    O.sorted.sublist List.filter_sublist
  exact List.pairwise_map.mpr (hsorted.imp fun h => Nat.ne_of_lt h)

/-! ### Rows -/

variable {r : Relay} {posting : Nat → Posting ε} {clock : Nat → Int} {row : Row ρ P}
  {rows before after : List (Row ρ P)} {log : List (Attempted P)}

theorem taken_confirms (h : taken r posting row = true) : confirms r posting row = true := by
  unfold taken at h
  unfold confirms
  cases hpost : r.post row with
  | none => rw [hpost] at h; cases h
  | some post =>
    cases hposting : posting row.seq with
    | response status =>
      rw [hpost, hposting] at h
      have hstatus : status = 200 := of_decide_eq_true h
      rw [hstatus]
      rfl
    | urlError => rw [hpost, hposting] at h; cases h
    | interrupted e => rw [hpost, hposting] at h; cases h

theorem relayRows_cons {acked : List Nat} (h : interrupts r posting row = false) :
    relayRows r posting (row :: rows) acked log =
      relayRows r posting rows (if confirms r posting row then acked ++ [row.seq] else acked)
        (log ++ [r.attempt row]) := by
  conv_lhs => unfold relayRows
  unfold interrupts at h
  unfold confirms
  dsimp only
  cases hpost : r.post row with
  | none => rfl
  | some post =>
    dsimp only
    cases hposting : posting row.seq with
    | response status =>
      dsimp only [relayPost]
      by_cases htaken : status = 200
      · rw [htaken]
        rfl
      · by_cases hrefused : status = 422
        · rw [hrefused]
          rfl
        · simp [htaken, hrefused]
    | urlError => rfl
    | interrupted e => rw [hpost, hposting] at h; cases h

theorem relayRows_interrupted (h : interrupts r posting row = true) (rows : List (Row ρ P))
    (acked : List Nat) (log : List (Attempted P)) :
    ∃ e, relayRows r posting (row :: rows) acked log = (.error e, log ++ [r.attempt row]) := by
  unfold relayRows
  unfold interrupts at h
  dsimp only
  cases hpost : r.post row with
  | none => rw [hpost] at h; cases h
  | some post =>
    dsimp only
    cases hposting : posting row.seq with
    | response status => rw [hpost, hposting] at h; cases h
    | urlError => rw [hpost, hposting] at h; cases h
    | interrupted e => exact ⟨e, rfl⟩

/-- Rows whose requests are not interrupted are all come to. -/
theorem relayRows_append (hcalm : ∀ x ∈ before, interrupts r posting x = false) :
    ∀ (acked : List Nat) (log : List (Attempted P)),
      relayRows r posting (before ++ rows) acked log =
        relayRows r posting rows
          (acked ++ (before.filter (confirms r posting)).map fun row => row.seq)
          (log ++ before.map r.attempt) := by
  induction before with
  | nil => intro acked log; simp
  | cons row before ih =>
    intro acked log
    obtain ⟨hrow, hbefore⟩ := List.forall_mem_cons.mp hcalm
    rw [List.cons_append, relayRows_cons hrow, ih hbefore, List.filter_cons]
    cases confirms r posting row with
    | true => simp
    | false => simp

/-! ### One batch -/

variable {s : Pass ρ P}

/-- **A calm batch** comes to all its rows and acknowledges those that are confirmed. -/
theorem relayBatch_calm (clock : Nat → Int) (n : Nat)
    (hcalm : ∀ row ∈ (undelivered s.outbox).take n, interrupts r posting row = false) :
    ∃ O', relayBatch r posting clock ((undelivered s.outbox).take n) s =
        (.ok (((undelivered s.outbox).take n).countP (confirms r posting)),
          { outbox := O', log := s.log ++ ((undelivered s.outbox).take n).map r.attempt }) ∧
      undelivered O' = afterBatch (confirms r posting) n (undelivered s.outbox) ∧
      ∀ k, delivered O' k ↔ delivered s.outbox k ∨
        ∃ row ∈ (undelivered s.outbox).take n, row.seq = k ∧ confirms r posting row = true := by
  have hrows : relayRows r posting ((undelivered s.outbox).take n) [] s.log =
      (.ok ((((undelivered s.outbox).take n).filter (confirms r posting)).map fun row => row.seq),
        s.log ++ ((undelivered s.outbox).take n).map r.attempt) := by
    have happend : relayRows r posting ((undelivered s.outbox).take n ++ []) [] s.log = _ :=
      relayRows_append hcalm [] s.log
    rw [List.append_nil, List.nil_append] at happend
    exact happend
  have hafter := Lib.afterBatch_eq_filter (nodup_seq_undelivered s.outbox) (confirms r posting) n
  have hacked : ∀ k, k ∈ (((undelivered s.outbox).take n).filter (confirms r posting)).map
      (fun row => row.seq) ↔
      ∃ row ∈ (undelivered s.outbox).take n, row.seq = k ∧ confirms r posting row = true := by
    intro k
    rw [List.mem_map]
    constructor
    · rintro ⟨row, hrow, hk⟩
      obtain ⟨hrow, hconfirms⟩ := List.mem_filter.mp hrow
      exact ⟨row, hrow, hk, hconfirms⟩
    · rintro ⟨row, hrow, hk, hconfirms⟩
      exact ⟨row, List.mem_filter.mpr ⟨hrow, hconfirms⟩, hk⟩
  have hknown : ∀ k ∈ (((undelivered s.outbox).take n).filter (confirms r posting)).map
      (fun row => row.seq), ∃ row ∈ s.outbox.rows, row.seq = k := by
    intro k hk
    obtain ⟨row, hrow, hseq, -⟩ := (hacked k).mp hk
    exact ⟨row, (List.mem_filter.mp (List.mem_of_mem_take hrow)).1, hseq⟩
  have hlength : ((((undelivered s.outbox).take n).filter (confirms r posting)).map
      fun row => row.seq).length = ((undelivered s.outbox).take n).countP (confirms r posting) := by
    rw [List.length_map, List.countP_eq_length_filter]
  unfold relayBatch relayDrainOnce
  rw [hrows]
  dsimp only
  generalize (((undelivered s.outbox).take n).filter (confirms r posting)).map
    (fun row => row.seq) = acked at *
  by_cases hnone : acked = []
  · rw [if_pos hnone]
    refine ⟨s.outbox, ?_, ?_, ?_⟩
    · rw [← hlength, hnone]
      rfl
    · rw [← hafter, hnone]
      simp
    · intro k
      rw [← hacked k, hnone]
      simp
  · rw [if_neg hnone]
    obtain ⟨O', hack, hundelivered, hdelivered⟩ := ackOutbox_known
      (clock (s.log ++ ((undelivered s.outbox).take n).map r.attempt).length) hknown
    refine ⟨O', ?_, hundelivered.trans hafter, ?_⟩
    · rw [hack, hlength]
    · intro k
      rw [hdelivered k, hacked k]

/-- An interruption ends the batch at its row, and nothing is acknowledged. -/
theorem relayBatch_interrupted (hcalm : ∀ x ∈ before, interrupts r posting x = false)
    (h : interrupts r posting row = true) (clock : Nat → Int) (after : List (Row ρ P))
    (s : Pass ρ P) :
    ∃ e, relayBatch r posting clock (before ++ row :: after) s = (.error (.raised e),
      { s with log := s.log ++ (before ++ [row]).map r.attempt }) := by
  obtain ⟨e, he⟩ := relayRows_interrupted h after
    ([] ++ (before.filter (confirms r posting)).map fun row => row.seq)
    (s.log ++ before.map r.attempt)
  refine ⟨e, ?_⟩
  unfold relayBatch relayDrainOnce
  rw [relayRows_append hcalm, he, List.map_append, List.append_assoc]
  rfl

/-! ### What the batches came to -/

variable {O : Outbox ρ P} {attempted visits : List (Row ρ P)}

theorem not_delivered_of_mem (h : row ∈ undelivered O) : ¬delivered O row.seq := by
  rintro ⟨row', hrow', hseq, hdelivered⟩
  obtain ⟨hrow, hnone⟩ := List.mem_filter.mp h
  have hdistinct : (O.rows.map fun row => row.seq).Nodup :=
    List.pairwise_map.mpr (O.sorted.imp fun h => Nat.ne_of_lt h)
  have heq : row' = row := List.inj_on_of_nodup_map hdistinct hrow' hrow hseq
  rw [heq] at hdelivered
  exact hdelivered (Option.isNone_iff_eq_none.mp hnone)

theorem eq_of_seq_eq {row' : Row ρ P} (h : row ∈ undelivered O) (h' : row' ∈ undelivered O)
    (hseq : row.seq = row'.seq) : row = row' :=
  Lib.eq_of_key_eq (nodup_seq_undelivered O) h h' hseq

section

variable (hlog : s.log = visits.map r.attempt)
include hlog

section

variable (hvisits : ∀ x ∈ visits, x ∈ undelivered O)
include hvisits

theorem cameTo_iff (h : row ∈ undelivered O) : s.cameTo row ↔ row ∈ visits := by
  unfold Pass.cameTo
  rw [hlog]
  simp only [List.mem_map]
  constructor
  · rintro ⟨_, ⟨x, hx, rfl⟩, hseq⟩
    have heq : x = row := eq_of_seq_eq (hvisits x hx) h hseq
    rw [← heq]
    exact hx
  · intro hrow
    exact ⟨_, ⟨row, hrow, rfl⟩, rfl⟩

/-- A row with a request is posted whenever a batch comes to it. -/
theorem posts_eq (h : row ∈ undelivered O) (hpost : (r.post row).isSome = true) :
    s.posts row = visits.countP fun x => x.seq = row.seq := by
  unfold Pass.posts
  rw [hlog, List.countP_map]
  apply List.countP_congr
  intro x hx
  by_cases hseq : x.seq = row.seq
  · have heq : x = row := eq_of_seq_eq (hvisits x hx) h hseq
    rw [heq]
    simp [Relay.attempt, hpost]
  · simp [Relay.attempt, hseq]

theorem posts_pos_iff (h : row ∈ undelivered O) (hpost : (r.post row).isSome = true) :
    0 < s.posts row ↔ row ∈ visits := by
  rw [posts_eq hlog hvisits h hpost, List.countP_pos_iff]
  constructor
  · rintro ⟨x, hx, hseq⟩
    have heq : x = row := eq_of_seq_eq (hvisits x hx) h (of_decide_eq_true hseq)
    rw [← heq]
    exact hx
  · intro hrow
    exact ⟨row, hrow, decide_eq_true rfl⟩

end

end

theorem post_of_confirms (h : confirms r posting row = true) : (r.post row).isSome = true := by
  unfold confirms at h
  cases hpost : r.post row with
  | none => rw [hpost] at h; cases h
  | some post => rfl

theorem not_taken_of_interrupts (h : interrupts r posting row = true) :
    taken r posting row = false := by
  unfold interrupts at h
  unfold taken
  cases hpost : r.post row with
  | none => rfl
  | some post =>
    cases hposting : posting row.seq with
    | response status => rw [hpost, hposting] at h; cases h
    | urlError | interrupted e => rfl

/-- Where a pass is between two batches: a first part of the rows is attempted, and of these the
confirmed ones are delivered. -/
structure Going (r : Relay) (posting : Nat → Posting ε) (O : Outbox ρ P)
    (attempted : List (Row ρ P)) (s : Pass ρ P) : Prop where
  progress : ∃ visits, s.log = visits.map r.attempt ∧ Progress (fun row => row.seq)
    (confirms r posting) (undelivered O) attempted (undelivered s.outbox) visits
  delivered : ∀ k, delivered s.outbox k ↔ delivered O k ∨
    ∃ row ∈ attempted, row.seq = k ∧ confirms r posting row = true

theorem going_start (O : Outbox ρ P) : Going r posting O [] { outbox := O } where
  progress := ⟨[], rfl, Lib.progress_start⟩
  delivered k := by simp

section

variable (h : Going r posting O attempted s)
include h

theorem Going.mem (hrow : row ∈ attempted) : row ∈ undelivered O := by
  obtain ⟨visits, -, hprogress⟩ := h.progress
  obtain ⟨rest, hstart, -⟩ := hprogress.split
  rw [hstart]
  exact List.mem_append_left rest hrow

/-- No row that was answered 200 is left undelivered. -/
theorem Going.kept :
    ∀ row ∈ undelivered O, 0 < s.posts row → taken r posting row = true →
      Cli.delivered s.outbox row.seq := by
  intro row hrow hposts htaken
  have hconfirms := taken_confirms htaken
  obtain ⟨visits, hlog, hprogress⟩ := h.progress
  have hvisits : ∀ x ∈ visits, x ∈ undelivered O := fun x hx => h.mem ((hprogress.visited x).mp hx)
  have hmem := (posts_pos_iff hlog hvisits hrow (post_of_confirms hconfirms)).mp hposts
  exact (h.delivered row.seq).mpr (.inr ⟨row, (hprogress.visited row).mp hmem, rfl, hconfirms⟩)

/-- A pass owes nothing more once it has reached what it has to reach. -/
theorem Going.complete {limit : Option { n : Nat // 0 < n }}
    (hreached : ∀ before row after, undelivered O = before ++ row :: after →
      (∀ n, limit = some n → before.countP (!confirms r posting ·) < n.1) → row ∈ attempted) :
    Complete r posting limit O s := by
  obtain ⟨visits, hlog, hprogress⟩ := h.progress
  have hvisits : ∀ x ∈ visits, x ∈ undelivered O := fun x hx => h.mem ((hprogress.visited x).mp hx)
  have hcame : ∀ row ∈ undelivered O, s.cameTo row ↔ row ∈ attempted := by
    intro row hrow
    rw [cameTo_iff hlog hvisits hrow, hprogress.visited]
  refine ⟨?_, ?_, ?_⟩
  · intro k
    rw [h.delivered k]
    constructor
    · rintro (hk | ⟨row, hrow, hk, hconfirms⟩)
      · exact .inl hk
      · have hmem := h.mem hrow
        exact .inr ⟨row, hmem, hk, (hcame row hmem).mpr hrow, hconfirms⟩
    · rintro (hk | ⟨row, hrow, hk, hcameTo, hconfirms⟩)
      · exact .inl hk
      · exact .inr ⟨row, (hcame row hrow).mp hcameTo, hk, hconfirms⟩
  · intro row hrow hcameTo hconfirms
    rw [posts_eq hlog hvisits hrow (post_of_confirms hconfirms)]
    exact hprogress.once row ((hcame row hrow).mp hcameTo) hconfirms
  · intro before row after hsplit hbefore
    have hmem : row ∈ undelivered O := by
      rw [hsplit]
      simp
    exact (hcame row hmem).mpr (hreached before row after hsplit hbefore)

/-- Behind an interruption, a row that was answered 200 is left undelivered iff it came before it in
the batch. -/
theorem Going.interrupted {n : Nat}
    (hbatch : (undelivered s.outbox).take n = before ++ row :: after)
    (hinterrupts : interrupts r posting row = true) :
    (∀ x ∈ undelivered O,
      0 < ({ s with log := s.log ++ (before ++ [row]).map r.attempt } : Pass ρ P).posts x →
        taken r posting x = true → Cli.delivered s.outbox x.seq) ↔
      ∀ x ∈ before, taken r posting x = false := by
  obtain ⟨visits, hlog, hprogress⟩ := h.progress
  have hleft : ∀ x ∈ undelivered s.outbox, x ∈ undelivered O := by
    intro x hx
    obtain ⟨rest, hstart, hqueue⟩ := hprogress.split
    rw [hqueue] at hx
    rw [hstart]
    rcases List.mem_append.mp hx with hx | hx
    · exact List.mem_append_left rest (List.mem_filter.mp hx).1
    · exact List.mem_append_right attempted hx
  have hfront : ∀ x ∈ before ++ [row], x ∈ undelivered s.outbox := by
    intro x hx
    apply List.mem_of_mem_take (i := n)
    rw [hbatch]
    rcases List.mem_append.mp hx with hx | hx
    · exact List.mem_append_left _ hx
    · rw [List.mem_singleton.mp hx]
      simp
  have hvisits : ∀ x ∈ visits ++ (before ++ [row]), x ∈ undelivered O := by
    intro x hx
    rcases List.mem_append.mp hx with hx | hx
    · exact h.mem ((hprogress.visited x).mp hx)
    · exact hleft x (hfront x hx)
  have hlog' : s.log ++ (before ++ [row]).map r.attempt =
      (visits ++ (before ++ [row])).map r.attempt := by
    rw [hlog, ← List.map_append]
  constructor
  · intro hkept x hx
    cases htaken : taken r posting x with
    | false => rfl
    | true =>
      have hmem := hfront x (List.mem_append_left [row] hx)
      have hpost := post_of_confirms (taken_confirms htaken)
      refine absurd (hkept x (hleft x hmem) ?_ htaken) (not_delivered_of_mem hmem)
      rw [posts_pos_iff hlog' hvisits (hleft x hmem) hpost]
      exact List.mem_append_right _ (List.mem_append_left _ hx)
  · intro hbefore x hx hposts htaken
    have hconfirms := taken_confirms htaken
    rw [posts_pos_iff hlog' hvisits hx (post_of_confirms hconfirms)] at hposts
    rcases List.mem_append.mp hposts with hvisit | hvisit
    · exact (h.delivered x.seq).mpr (.inr ⟨x, (hprogress.visited x).mp hvisit, rfl, hconfirms⟩)
    · rcases List.mem_append.mp hvisit with hvisit | hvisit
      · rw [hbefore x hvisit] at htaken
        cases htaken
      · rw [List.mem_singleton.mp hvisit, not_taken_of_interrupts hinterrupts] at htaken
        cases htaken

end

/-! ### The stop rule -/

variable {limit : Option { n : Nat // 0 < n }} {n : Nat} {queue queue' : List (Row ρ P)}

/-- A batch of at most `size` rows has at most `n`: the limit, or what no batch without a limit
reaches. -/
def Bounds (limit : Option { n : Nat // 0 < n }) (n size : Nat) : Prop :=
  (∃ hn, limit = some ⟨n, hn⟩) ∨ limit = none ∧ size < n

theorem exists_bounds (limit : Option { n : Nat // 0 < n }) (size : Nat) :
    ∃ n, 0 < n ∧ Bounds limit n size := by
  cases limit with
  | none => exact ⟨size + 1, Nat.succ_pos size, .inr ⟨rfl, Nat.lt_succ_self size⟩⟩
  | some n => exact ⟨n.1, n.2, .inl ⟨n.2, rfl⟩⟩

section

variable (hb : Bounds limit n rows.length)
include hb

theorem batchOf_eq (hqueue : queue.length ≤ rows.length) : batchOf limit queue = queue.take n := by
  obtain ⟨hn, rfl⟩ | ⟨rfl, hsize⟩ := hb
  · rfl
  · exact (List.take_of_length_le (hqueue.trans hsize.le)).symm

theorem stops_iff {drained acked : Nat} (hdrained : drained ≤ rows.length) :
    stops limit drained acked = true ↔ drained < n ∨ acked = 0 := by
  obtain ⟨hn, rfl⟩ | ⟨rfl, hsize⟩ := hb
  · unfold stops
    simp
  · exact iff_of_true rfl (.inl (hdrained.trans_lt hsize))

theorem nextFront_iff (hqueue : queue.length ≤ rows.length) :
    NextFront r posting limit queue queue' ↔ (queue.take n).length = n ∧
      (∀ row ∈ queue.take n, interrupts r posting row = false) ∧
      (∃ row ∈ queue.take n, confirms r posting row = true) ∧
      queue' = afterBatch (confirms r posting) n queue := by
  obtain ⟨hn, rfl⟩ | ⟨rfl, hsize⟩ := hb
  · constructor
    · rintro ⟨m, hm, hnext⟩
      rw [← Option.some.inj hm] at hnext
      exact hnext
    · intro hnext
      exact ⟨⟨n, hn⟩, rfl, hnext⟩
  · refine iff_of_false ?_ ?_
    · rintro ⟨m, hm, -⟩
      cases hm
    · rintro ⟨hfull, -⟩
      rw [List.length_take] at hfull
      omega

theorem lt_of_bounds {k : Nat} (hk : k < rows.length) (hlimit : ∀ m, limit = some m → k < m.1) :
    k < n := by
  obtain ⟨hn, rfl⟩ | ⟨rfl, hsize⟩ := hb
  · exact hlimit _ rfl
  · exact hk.trans hsize

end

/-- The first interruption of a batch. -/
theorem exists_first_interruption (h : ¬∀ row ∈ queue, interrupts r posting row = false) :
    ∃ before row after, queue = before ++ row :: after ∧ interrupts r posting row = true ∧
      ∀ x ∈ before, interrupts r posting x = false := by
  have hsome : (queue.find? (interrupts r posting)).isSome = true := by
    rw [List.find?_isSome]
    by_contra hnone
    apply h
    intro row hrow
    exact Bool.eq_false_iff.mpr fun hrow' => hnone ⟨row, hrow, hrow'⟩
  obtain ⟨row, hrow⟩ := Option.isSome_iff_exists.mp hsome
  obtain ⟨hinterrupts, before, after, hsplit, hbefore⟩ := List.find?_eq_some_iff_append.mp hrow
  refine ⟨before, row, after, hsplit, hinterrupts, ?_⟩
  intro x hx
  have hnot := hbefore x hx
  rwa [Bool.not_eq_true'] at hnot

theorem takeWhile_before (hinterrupts : interrupts r posting row = true)
    (hcalm : ∀ x ∈ before, interrupts r posting x = false) (after : List (Row ρ P)) :
    (before ++ row :: after).takeWhile (!interrupts r posting ·) = before := by
  rw [List.takeWhile_append_of_pos (by simpa using hcalm), List.takeWhile_cons, hinterrupts]
  exact List.append_nil before

/-- Whether a batch is troubled is decided by its first interruption. -/
theorem untroubled_iff (hbatch : batchOf limit queue = before ++ row :: after)
    (hinterrupts : interrupts r posting row = true)
    (hcalm : ∀ x ∈ before, interrupts r posting x = false) :
    Untroubled r posting limit queue ↔ ∀ x ∈ before, taken r posting x = false := by
  constructor
  · intro h
    exact h before row after hbatch hinterrupts hcalm
  · intro h before' row' after' hbatch' hinterrupts' hcalm'
    have heq : before' = before := by
      rw [← takeWhile_before hinterrupts' hcalm' after', ← hbatch', hbatch,
        takeWhile_before hinterrupts hcalm after]
    rw [heq]
    exact h

theorem untroubled_of_calm (h : ∀ row ∈ batchOf limit queue, interrupts r posting row = false) :
    Untroubled r posting limit queue := by
  intro before row after hbatch hinterrupts
  have hrow := h row (by rw [hbatch]; simp)
  rw [hinterrupts] at hrow
  cases hrow

/-- No batch is troubled iff the last one is not. -/
theorem undisturbed_iff (hfront : Fronts r posting limit (undelivered O) queue)
    (hlast : ∀ q, ¬NextFront r posting limit queue q) :
    Undisturbed r posting limit O ↔ Untroubled r posting limit queue := by
  constructor
  · intro h
    exact h queue hfront
  · intro h queue' hfront'
    have hunique : Relator.RightUnique (NextFront r posting limit : List (Row ρ P) → _ → Prop) := by
      rintro a b c ⟨m, hm, -, -, -, rfl⟩ ⟨m', hm', -, -, -, rfl⟩
      rw [Option.some.inj (hm.symm.trans hm')]
    have hreach : Fronts r posting limit queue' queue := by
      rcases Relation.ReflTransGen.total_of_right_unique hunique hfront hfront' with hto | hto
      · rcases Relation.ReflTransGen.cases_head hto with heq | ⟨q, hq, -⟩
        · rw [heq]
          exact .refl
        · exact absurd hq (hlast q)
      · exact hto
    rcases Relation.ReflTransGen.cases_head hreach with heq | ⟨q, ⟨m, hm, -, hcalm, -⟩, -⟩
    · rw [heq]
      exact h
    · apply untroubled_of_calm
      unfold batchOf
      rw [hm]
      exact hcalm

/-! ### Passes -/

/-- What a pass that has ended leaves: what it owes if it returned, and no row that was answered 200
undelivered iff its last batch is untroubled. -/
def Ends (r : Relay) (posting : Nat → Posting ε) (limit : Option { n : Nat // 0 < n })
    (O : Outbox ρ P) (result : Except (Failure ε) Nat) (s : Pass ρ P) : Prop :=
  ∃ queue, Fronts r posting limit (undelivered O) queue ∧
    (∀ q, ¬NextFront r posting limit queue q) ∧
    (∀ total, result = .ok total → Complete r posting limit O s) ∧
    ((∀ row ∈ undelivered O, 0 < s.posts row → taken r posting row = true →
      Cli.delivered s.outbox row.seq) ↔ Untroubled r posting limit queue)

/-- A calm batch goes on from where the pass is. -/
theorem Going.batch (h : Going r posting O attempted s) {fresh rest : List (Row ρ P)}
    (hstart : undelivered O = attempted ++ fresh ++ rest)
    (htake : (undelivered s.outbox).take n = attempted.filter (!confirms r posting ·) ++ fresh)
    (hdrop : (undelivered s.outbox).drop n = rest) {O' : Outbox ρ P}
    (hundelivered : undelivered O' = afterBatch (confirms r posting) n (undelivered s.outbox))
    (hdelivered : ∀ k, Cli.delivered O' k ↔ Cli.delivered s.outbox k ∨
      ∃ row ∈ (undelivered s.outbox).take n, row.seq = k ∧ confirms r posting row = true) :
    Going r posting O (attempted ++ fresh)
      { outbox := O', log := s.log ++ ((undelivered s.outbox).take n).map r.attempt } := by
  obtain ⟨visits, hlog, hprogress⟩ := h.progress
  constructor
  · refine ⟨visits ++ (undelivered s.outbox).take n, ?_, ?_⟩
    · rw [hlog, List.map_append]
    · rw [hundelivered]
      exact hprogress.batch (nodup_seq_undelivered O) hstart htake hdrop
  · intro k
    show Cli.delivered O' k ↔ _
    rw [hdelivered k, h.delivered k, htake]
    constructor
    · rintro ((hk | ⟨row, hrow, hk⟩) | ⟨row, hrow, hk, hconfirms⟩)
      · exact .inl hk
      · exact .inr ⟨row, List.mem_append_left fresh hrow, hk⟩
      · rcases List.mem_append.mp hrow with hrow | hrow
        · rw [List.mem_filter, hconfirms] at hrow
          cases hrow.2
        · exact .inr ⟨row, List.mem_append_right attempted hrow, hk, hconfirms⟩
    · rintro (hk | ⟨row, hrow, hk⟩)
      · exact .inl (.inl hk)
      · rcases List.mem_append.mp hrow with hrow | hrow
        · exact .inl (.inr ⟨row, hrow, hk⟩)
        · exact .inr ⟨row, List.mem_append_right _ hrow, hk⟩

theorem length_afterBatch_lt (h : ∃ row ∈ queue.take n, confirms r posting row = true) :
    (afterBatch (confirms r posting) n queue).length < queue.length := by
  obtain ⟨row, hrow, hconfirms⟩ := h
  have hlt : ((queue.take n).filter (!confirms r posting ·)).length < (queue.take n).length := by
    rw [List.length_filter_lt_length_iff_exists]
    exact ⟨row, hrow, by simpa using hconfirms⟩
  have hqueue : (queue.take n).length + (queue.drop n).length = queue.length := by
    rw [← List.length_append, List.take_append_drop]
  unfold afterBatch
  rw [List.length_append]
  omega

/-- **A pass ends**, each batch after the last taking at least one row out of the queue. -/
theorem relayPass_ends (clock : Nat → Int) (hb : Bounds limit n (undelivered O).length)
    (fuel : Nat) :
    ∀ (total : Nat) (s : Pass ρ P) (attempted : List (Row ρ P)), Going r posting O attempted s →
      (attempted.filter (!confirms r posting ·)).length < n →
      Fronts r posting limit (undelivered O) (undelivered s.outbox) →
      (undelivered s.outbox).length < fuel →
      ∃ result s', relayPass r posting clock limit fuel total s = some (result, s') ∧
        Ends r posting limit O result s' := by
  induction fuel with
  | zero =>
    intro total s attempted _ _ _ hfuel
    exact absurd hfuel (Nat.not_lt_zero _)
  | succ fuel ih =>
    intro total s attempted hgoing hfew hfront hfuel
    obtain ⟨visits, hlog, hprogress⟩ := hgoing.progress
    have hqueue : (undelivered s.outbox).length ≤ (undelivered O).length := by
      obtain ⟨rest, hstart, hqueue⟩ := hprogress.split
      have hfilter := List.length_filter_le (!confirms r posting ·) attempted
      rw [hstart, hqueue, List.length_append, List.length_append]
      omega
    have hrows : drainOutbox limit s.outbox = (undelivered s.outbox).take n := batchOf_eq hb hqueue
    have hbatch : batchOf limit (undelivered s.outbox) = (undelivered s.outbox).take n :=
      batchOf_eq hb hqueue
    unfold relayPass
    rw [hrows]
    dsimp only
    by_cases hcalm : ∀ row ∈ (undelivered s.outbox).take n, interrupts r posting row = false
    · obtain ⟨fresh, rest, hstart, htake, hdrop, hfull⟩ := hprogress.fresh hfew.le
      obtain ⟨O', hrelay, hundelivered, hdelivered⟩ := relayBatch_calm clock n hcalm
      have hgoing' := hgoing.batch hstart htake hdrop hundelivered hdelivered
      rw [hrelay]
      dsimp only
      have hdrained : ((undelivered s.outbox).take n).length ≤ (undelivered O).length :=
        (List.length_take_le' n _).trans hqueue
      cases hstops : stops limit ((undelivered s.outbox).take n).length
          (((undelivered s.outbox).take n).countP (confirms r posting)) with
      | true =>
        rw [if_pos rfl]
        refine ⟨_, _, rfl, undelivered s.outbox, hfront, ?_, ?_, ?_⟩
        · intro q hnext
          obtain ⟨hlength, -, ⟨row, hrow, hconfirms⟩, -⟩ := (nextFront_iff hb hqueue).mp hnext
          rcases (stops_iff hb hdrained).mp hstops with hshort | hnone
          · omega
          · exact List.countP_eq_zero.mp hnone row hrow hconfirms
        · intro _ _
          apply hgoing'.complete
          intro before row after hsplit hbefore
          have hlt : before.countP (!confirms r posting ·) < (undelivered O).length := by
            have hle := List.countP_le_length (p := (!confirms r posting ·)) (l := before)
            rw [hsplit, List.length_append, List.length_cons]
            omega
          refine Lib.covers hstart htake hfull ?_ hsplit (lt_of_bounds hb hlt hbefore)
          rcases (stops_iff hb hdrained).mp hstops with hshort | hnone
          · exact .inl hshort
          · right
            intro x hx
            have hx' : x ∈ (undelivered s.outbox).take n := by
              rw [htake]
              exact List.mem_append_right _ hx
            exact Bool.eq_false_iff.mpr (List.countP_eq_zero.mp hnone x hx')
        · refine iff_of_true hgoing'.kept (untroubled_of_calm ?_)
          rw [hbatch]
          exact hcalm
      | false =>
        rw [if_neg Bool.false_ne_true]
        have hgo : ¬(((undelivered s.outbox).take n).length < n ∨
            ((undelivered s.outbox).take n).countP (confirms r posting) = 0) := by
          rw [← stops_iff hb hdrained, hstops]
          exact Bool.false_ne_true
        obtain ⟨hlong, hsome⟩ := not_or.mp hgo
        have hlength : ((undelivered s.outbox).take n).length = n :=
          le_antisymm (List.length_take_le n _) (not_lt.mp hlong)
        have hconfirmed : ∃ row ∈ (undelivered s.outbox).take n, confirms r posting row = true :=
          List.countP_pos_iff.mp (Nat.pos_of_ne_zero hsome)
        have hnext : NextFront r posting limit (undelivered s.outbox) (undelivered O') :=
          (nextFront_iff hb hqueue).mpr ⟨hlength, hcalm, hconfirmed, hundelivered⟩
        have hfresh : ∃ row ∈ fresh, confirms r posting row = true := by
          obtain ⟨row, hrow, hconfirms⟩ := hconfirmed
          rw [htake] at hrow
          rcases List.mem_append.mp hrow with hrow | hrow
          · rw [List.mem_filter, hconfirms] at hrow
            cases hrow.2
          · exact ⟨row, hrow, hconfirms⟩
        apply ih _ _ (attempted ++ fresh) hgoing' (Lib.length_filter_lt htake hfresh)
          (hfront.tail hnext)
        show (undelivered O').length < fuel
        have hshrinks := length_afterBatch_lt hconfirmed
        rw [hundelivered]
        omega
    · obtain ⟨before, row, after, hsplit, hinterrupts, hbefore⟩ := exists_first_interruption hcalm
      obtain ⟨e, hrelay⟩ := relayBatch_interrupted hbefore hinterrupts clock after s
      rw [hsplit, hrelay]
      refine ⟨_, _, rfl, undelivered s.outbox, hfront, ?_, ?_, ?_⟩
      · intro q hnext
        exact hcalm ((nextFront_iff hb hqueue).mp hnext).2.1
      · intro total hresult
        cases hresult
      · rw [untroubled_iff (hbatch.trans hsplit) hinterrupts hbefore]
        exact hgoing.interrupted hsplit hinterrupts

/-- More batches than a pass has do not change it. -/
theorem relayPass_add (more : Nat) (fuel : Nat) :
    ∀ (total : Nat) (s : Pass ρ P) (x : Except (Failure ε) Nat × Pass ρ P),
      relayPass r posting clock limit fuel total s = some x →
      relayPass r posting clock limit (fuel + more) total s = some x := by
  induction fuel with
  | zero =>
    intro total s x h
    cases h
  | succ fuel ih =>
    intro total s x h
    rw [Nat.succ_add]
    unfold relayPass at h ⊢
    dsimp only at h ⊢
    obtain ⟨⟨result, s'⟩, hbatch⟩ :
        ∃ y, relayBatch r posting clock (drainOutbox limit s.outbox) s = y := ⟨_, rfl⟩
    rw [hbatch] at h ⊢
    cases result with
    | error f => exact h
    | ok acked =>
      dsimp only at h ⊢
      cases hstops : stops limit (drainOutbox limit s.outbox).length acked with
      | true =>
        rw [hstops, if_pos rfl] at h
        rw [if_pos rfl]
        exact h
      | false =>
        rw [hstops, if_neg Bool.false_ne_true] at h
        rw [if_neg Bool.false_ne_true]
        exact ih _ _ _ h

/-- **A relay pass** is complete and exact and loses no acknowledgement iff no batch of it is
troubled. -/
theorem passLaw_iff (r : Relay) (posting : Nat → Posting ε) (clock : Nat → Int)
    (limit : Option { n : Nat // 0 < n }) (O : Outbox ρ P) :
    PassLaw r posting clock limit O ↔ Undisturbed r posting limit O := by
  obtain ⟨n, hn, hb⟩ := exists_bounds limit (undelivered O).length
  obtain ⟨result, s, hpass, queue, hfront, hlast, hcomplete, hkept⟩ :=
    relayPass_ends clock hb ((undelivered O).length + 1) 0 { outbox := O } []
      (going_start O) hn .refl (Nat.lt_succ_self _)
  rw [undisturbed_iff hfront hlast, ← hkept]
  constructor
  · rintro ⟨fuel, result', s', hpass', -, hkept'⟩
    have heq := relayPass_add fuel _ _ _ _ hpass
    rw [Nat.add_comm, hpass'] at heq
    obtain ⟨-, rfl⟩ := Prod.mk.inj (Option.some.inj heq)
    exact hkept'
  · intro hkept'
    exact ⟨_, result, s, fun more => relayPass_add more _ _ _ _ hpass, hcomplete, hkept'⟩

/-- An emission that is undelivered. -/
def orderPlaced (seq : Nat) : Row Unit Unit :=
  ⟨⟨seq, ⟨"emission-1", "Event:OrderPlaced", ()⟩, none⟩, 0, none⟩

def twoOrders : Outbox Unit Unit where
  rows := [orderPlaced 1, orderPlaced 2]
  sequence := 2
  sorted := by simp [orderPlaced]
  pos := by simp [orderPlaced]
  le_sequence := by simp [orderPlaced]
  bounded := by decide

def shopRelay : Relay where
  letters := Serve.Routing.Letters.ascii
  eventNames := [("Event:OrderPlaced", "OrderPlaced")]
  source := "shop"
  target := "http://127.0.0.1:8080"

/-- The target takes the first emission, and is too slow for the second. -/
def slowTarget : Nat → Posting Unit
  | 1 => .response 200
  | _ => .interrupted ()

/-- The acknowledgement of the first emission is lost. -/
theorem not_passLaw_slowTarget :
    ¬PassLaw shopRelay slowTarget (fun _ => 0) (some ⟨100, by decide⟩) twoOrders := by
  rintro ⟨fuel, result, s, hpass, -, hkept⟩
  have hcalm : ∀ x ∈ [orderPlaced 1], interrupts shopRelay slowTarget x = false := by decide
  have hinterrupts : interrupts shopRelay slowTarget (orderPlaced 2) = true := by decide
  obtain ⟨e, hbatch⟩ := relayBatch_interrupted hcalm hinterrupts (fun _ => 0) []
    { outbox := twoOrders }
  have hone : relayPass shopRelay slowTarget (fun _ => 0) (some ⟨100, by decide⟩) 1 0
      { outbox := twoOrders } = some (.error (.raised e), { outbox := twoOrders, log :=
        [shopRelay.attempt (orderPlaced 1), shopRelay.attempt (orderPlaced 2)] }) := by
    have hrows : drainOutbox (some ⟨100, by decide⟩) twoOrders =
        [orderPlaced 1] ++ orderPlaced 2 :: [] := rfl
    unfold relayPass
    rw [hrows]
    dsimp only
    rw [hbatch]
    rfl
  have hmore := relayPass_add fuel 1 _ _ _ hone
  have hfuel := hpass 1
  rw [Nat.add_comm, hmore] at hfuel
  obtain ⟨-, rfl⟩ := Prod.mk.inj (Option.some.inj hfuel)
  have hmem : orderPlaced 1 ∈ undelivered twoOrders := by simp [undelivered, twoOrders, orderPlaced]
  exact not_delivered_of_mem hmem (hkept _ hmem (by decide) (by decide))

end Lnpl.Cli
