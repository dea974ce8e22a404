import Mathlib.Data.List.Nodup

/-!
# Queues worked off in batches

A queue is worked off from its front, `n` items a batch: the items that are done leave it, the
others stay where they are and come again with the next batch.  `Progress` says how far the batches
of a queue have come: a first part of it is attempted, and what is left is the part's items that
are not done, followed by the rest.  A batch that is short, or none of whose items is done, has
reached every item that stands behind fewer than `n` others that are not done
(`Progress.covers`).
-/

namespace Lnpl.Lib

variable {α κ : Type*} [DecidableEq κ] {key : α → κ} {done : α → Bool} {n : Nat}
  {start attempted queue visits : List α}

/-- What a batch leaves of a queue. -/
def afterBatch (done : α → Bool) (n : Nat) (queue : List α) : List α :=
  (queue.take n).filter (!done ·) ++ queue.drop n

/-- A part of the queue is attempted, `visits` are the attempts, and an item that is done was
attempted once. -/
structure Progress (key : α → κ) (done : α → Bool) (start attempted queue visits : List α) :
    Prop where
  split : ∃ rest, start = attempted ++ rest ∧ queue = attempted.filter (!done ·) ++ rest
  visited : ∀ a, a ∈ visits ↔ a ∈ attempted
  once : ∀ a ∈ attempted, done a = true → visits.countP (fun b => key b = key a) = 1

theorem progress_start : Progress key done start [] start [] where
  split := ⟨start, rfl, rfl⟩
  visited := fun _ => Iff.rfl
  once := fun _ h => absurd h List.not_mem_nil

/-! ### Items with a key -/

variable {l rest : List α} {a b : α}

theorem countP_key_eq_zero (h : ∀ b ∈ l, key b ≠ key a) :
    l.countP (fun b => key b = key a) = 0 := by
  rw [List.countP_eq_zero]
  intro b hb
  simpa using h b hb

theorem countP_key_eq_one (hdistinct : (l.map key).Nodup) (h : a ∈ l) :
    l.countP (fun b => key b = key a) = 1 := by
  have hcount : (l.map key).count (key a) = 1 :=
    List.count_eq_one_of_mem hdistinct (List.mem_map_of_mem h)
  rw [List.count, List.countP_map] at hcount
  exact hcount

omit [DecidableEq κ] in
theorem ne_of_nodup_append {m : List α} (hdistinct : ((l ++ m).map key).Nodup) (ha : a ∈ l)
    (hb : b ∈ m) : key b ≠ key a := by
  rw [List.map_append, List.nodup_append] at hdistinct
  exact (hdistinct.2.2 _ (List.mem_map_of_mem ha) _ (List.mem_map_of_mem hb)).symm

omit [DecidableEq κ] in
theorem eq_of_key_eq (hdistinct : (l.map key).Nodup) (ha : a ∈ l) (hb : b ∈ l) (h : key a = key b) :
    a = b :=
  List.inj_on_of_nodup_map hdistinct ha hb h

/-! ### Batches -/

section

variable (h : Progress key done start attempted queue visits)
include h

/-- The part that is attempted for the first time in a batch, and what is behind it. -/
theorem Progress.fresh (hfew : (attempted.filter (!done ·)).length ≤ n) :
    ∃ fresh rest, start = attempted ++ fresh ++ rest ∧
      queue.take n = attempted.filter (!done ·) ++ fresh ∧ queue.drop n = rest ∧
      (rest ≠ [] → (queue.take n).length = n) := by
  obtain ⟨rest, hstart, hqueue⟩ := h.split
  have hlength : n = (attempted.filter (!done ·)).length +
      (n - (attempted.filter (!done ·)).length) := by omega
  refine ⟨rest.take (n - (attempted.filter (!done ·)).length),
    rest.drop (n - (attempted.filter (!done ·)).length), ?_, ?_, ?_, ?_⟩
  · rw [List.append_assoc, List.take_append_drop]
    exact hstart
  · rw [hqueue, List.take_append, List.take_of_length_le hfew]
  · rw [hqueue, List.drop_append, List.drop_of_length_le hfew]
    rfl
  · intro hrest
    have hdrop : n - (attempted.filter (!done ·)).length < rest.length := by
      rw [Ne, List.drop_eq_nil_iff, Nat.not_le] at hrest
      exact hrest
    rw [List.length_take, hqueue, List.length_append]
    omega

/-- What has been attempted, in the batch that comes to `row` as its first new part. -/
theorem Progress.visit (hdistinct : (start.map key).Nodup) {fresh batch : List α}
    (hstart : start = attempted ++ fresh ++ rest)
    (hbatch : batch = attempted.filter (!done ·) ++ fresh) :
    (∀ a, a ∈ visits ++ batch ↔ a ∈ attempted ++ fresh) ∧
      ∀ a ∈ attempted ++ fresh, done a = true →
        (visits ++ batch).countP (fun b => key b = key a) = 1 := by
  have hattempted : ((attempted ++ fresh).map key).Nodup := by
    rw [hstart, List.map_append] at hdistinct
    exact (List.nodup_append.mp hdistinct).1
  have hfresh : (fresh.map key).Nodup := by
    rw [List.map_append] at hattempted
    exact (List.nodup_append.mp hattempted).2.1
  constructor
  · intro a
    rw [hbatch, List.mem_append, List.mem_append, List.mem_append, h.visited, List.mem_filter]
    constructor
    · rintro (ha | ⟨ha, -⟩ | ha)
      · exact .inl ha
      · exact .inl ha
      · exact .inr ha
    · rintro (ha | ha)
      · exact .inl ha
      · exact .inr (.inr ha)
  · intro a ha hdone
    rw [hbatch, List.countP_append, List.countP_append]
    -- no other item with the key of one that is done is left in front
    have hfront : (attempted.filter (!done ·)).countP (fun b => key b = key a) = 0 := by
      apply countP_key_eq_zero
      intro b hb hkey
      obtain ⟨hb, hundone⟩ := List.mem_filter.mp hb
      have heq := eq_of_key_eq hattempted (List.mem_append_left fresh hb) ha hkey
      rw [heq, hdone] at hundone
      cases hundone
    rw [hfront]
    rcases List.mem_append.mp ha with ha | ha
    · have hnew : fresh.countP (fun b => key b = key a) = 0 :=
        countP_key_eq_zero fun b hb => ne_of_nodup_append hattempted ha hb
      rw [h.once a ha hdone, hnew]
    · have hold : visits.countP (fun b => key b = key a) = 0 := by
        apply countP_key_eq_zero
        intro b hb
        exact (ne_of_nodup_append hattempted ((h.visited b).mp hb) ha).symm
      rw [hold, countP_key_eq_one hfresh ha]

/-- **One batch** attempts what comes next. -/
theorem Progress.batch (hdistinct : (start.map key).Nodup) {fresh : List α}
    (hstart : start = attempted ++ fresh ++ rest)
    (htake : queue.take n = attempted.filter (!done ·) ++ fresh) (hdrop : queue.drop n = rest) :
    Progress key done start (attempted ++ fresh) (afterBatch done n queue)
      (visits ++ queue.take n) := by
  obtain ⟨hvisited, honce⟩ := h.visit hdistinct hstart htake
  refine ⟨⟨rest, hstart, ?_⟩, hvisited, honce⟩
  unfold afterBatch
  rw [htake, hdrop, List.filter_append, List.filter_append, List.filter_filter]
  simp

end

/-- A batch takes the items out that are done. -/
theorem afterBatch_eq_filter (hdistinct : (queue.map key).Nodup) (done : α → Bool) (n : Nat) :
    queue.filter (fun a => !decide (key a ∈ ((queue.take n).filter done).map key)) =
      afterBatch done n queue := by
  have hparts : ((queue.take n ++ queue.drop n).map key).Nodup := by
    rw [List.take_append_drop]
    exact hdistinct
  have hfront : (queue.take n).filter
      (fun a => !decide (key a ∈ ((queue.take n).filter done).map key)) =
      (queue.take n).filter (!done ·) := by
    apply List.filter_congr
    intro a ha
    have hmem : key a ∈ ((queue.take n).filter done).map key ↔ done a = true := by
      rw [List.mem_map]
      constructor
      · rintro ⟨b, hb, hkey⟩
        obtain ⟨hb, hdone⟩ := List.mem_filter.mp hb
        rw [eq_of_key_eq hdistinct (List.mem_of_mem_take ha) (List.mem_of_mem_take hb) hkey.symm]
        exact hdone
      · intro hdone
        exact ⟨a, List.mem_filter.mpr ⟨ha, hdone⟩, rfl⟩
    cases hdone : done a with
    | true => rw [decide_eq_true (hmem.mpr hdone)]
    | false => rw [decide_eq_false fun ha => by rw [hmem.mp ha] at hdone; cases hdone]
  have hback : (queue.drop n).filter
      (fun a => !decide (key a ∈ ((queue.take n).filter done).map key)) = queue.drop n := by
    apply List.filter_eq_self.mpr
    intro a ha
    have hnot : key a ∉ ((queue.take n).filter done).map key := by
      rw [List.mem_map]
      rintro ⟨b, hb, hkey⟩
      exact ne_of_nodup_append hparts (List.mem_filter.mp hb).1 ha hkey.symm
    rw [decide_eq_false hnot]
    rfl
  unfold afterBatch
  rw [← hfront]
  conv_rhs => rw [← hback]
  rw [← List.filter_append, List.take_append_drop]

/-- A batch with an item that is done leaves fewer than `n` in front. -/
theorem length_filter_lt {fresh : List α}
    (htake : queue.take n = attempted.filter (!done ·) ++ fresh)
    (hdone : ∃ a ∈ fresh, done a = true) :
    ((attempted ++ fresh).filter (!done ·)).length < n := by
  obtain ⟨a, ha, hdone⟩ := hdone
  have hlt : (fresh.filter (!done ·)).length < fresh.length := by
    rw [List.length_filter_lt_length_iff_exists]
    exact ⟨a, ha, by simpa using hdone⟩
  have htaken : (queue.take n).length ≤ n := List.length_take_le n queue
  rw [htake, List.length_append] at htaken
  rw [List.filter_append, List.length_append]
  omega

/-- **A last batch.**  A batch that is short or has no item that is done has come to every item
behind fewer than `n` others that are not done. -/
theorem covers {fresh : List α} (hstart : start = attempted ++ fresh ++ rest)
    (htake : queue.take n = attempted.filter (!done ·) ++ fresh)
    (hfull : rest ≠ [] → (queue.take n).length = n)
    (hlast : (queue.take n).length < n ∨ ∀ a ∈ fresh, done a = false) {before after : List α}
    (hsplit : start = before ++ a :: after) (hbefore : before.countP (!done ·) < n) :
    a ∈ attempted ++ fresh := by
  by_contra hnot
  -- what is attempted stands in front of the item
  have hrest : ∃ m, before = attempted ++ fresh ++ m := by
    rw [hstart] at hsplit
    obtain ⟨m, hm, -⟩ | ⟨m, hm, hcons⟩ := List.append_eq_append_iff.mp hsplit
    · exact ⟨m, hm⟩
    · cases m with
      | nil => exact ⟨[], by rw [hm, List.append_nil, List.append_nil]⟩
      | cons b m =>
        obtain ⟨rfl, -⟩ := List.cons.inj hcons
        exact absurd (by rw [hm]; simp) hnot
  obtain ⟨m, hm⟩ := hrest
  have hnonempty : rest ≠ [] := by
    rintro rfl
    rw [List.append_nil] at hstart
    rw [hstart] at hsplit
    exact hnot (by rw [hsplit]; simp)
  have hlength := hfull hnonempty
  rcases hlast with hlast | hlast
  · omega
  · have hcount : before.countP (!done ·) ≥ (attempted ++ fresh).countP (!done ·) := by
      rw [hm, @List.countP_append _ _ (attempted ++ fresh) m]
      exact Nat.le_add_right _ _
    have hfresh : fresh.countP (!done ·) = fresh.length := by
      rw [List.countP_eq_length]
      intro b hb
      simpa using hlast b hb
    have hattempted : attempted.countP (!done ·) = (attempted.filter (!done ·)).length :=
      List.countP_eq_length_filter
    rw [List.countP_append, hfresh, hattempted] at hcount
    rw [htake, List.length_append] at hlength
    omega

end Lnpl.Lib
