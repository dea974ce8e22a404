import Mathlib.Data.List.Forall2
import Mathlib.Data.List.Induction
import Mathlib.Data.List.TakeWhile

/-!
# Templates with placeholders

Texts over an alphabet with a mark of two symbols.  `replaceAll` puts parts in one after the other,
each in the place of the first mark there is by then, and `fill` puts them in the places of the
template.  They agree whatever the last part is iff there is no mark in front of its place once the
others are in theirs (`replaceAll_eq_fill_iff`).  Parts that have no symbol of the mark come to
their places iff the empty ones among them bring no symbols of the template together to a mark
(`replaceAll_eq_fill_iff_inPlace`).

A template with separators is filled chunk by chunk (`splitOn_fill`).
-/

namespace Lnpl.Lib.Placeholders

variable {α : Type} [DecidableEq α]

/-! ### The first mark -/

/-- The text in front of the first mark, and the text behind it. -/
def cut (a b : α) : List α → Option (List α × List α)
  | x :: y :: rest =>
    if x = a ∧ y = b then some ([], rest)
    else (cut a b (y :: rest)).map fun parts => (x :: parts.1, parts.2)
  | _ => none

/-- `part` in the place of the first mark. -/
def replaceFirst (a b : α) (text part : List α) : List α :=
  match cut a b text with
  | some (front, back) => front ++ part ++ back
  | none => text

/-- The parts in the place of the first mark, one after the other. -/
def replaceAll (a b : α) (text : List α) (parts : List (List α)) : List α :=
  parts.foldl (replaceFirst a b) text

/-- The parts in the places of the template. -/
def fill (a b : α) : List α → List (List α) → List α
  | text, [] => text
  | text, part :: parts =>
    match cut a b text with
    | some (front, back) => front ++ part ++ fill a b back parts
    | none => text

/-- How many marks there are. -/
def marks (a b : α) : List α → ℕ
  | x :: y :: rest => if x = a ∧ y = b then marks a b rest + 1 else marks a b (y :: rest)
  | _ => 0

/-- Each chunk takes as many parts as it has marks. -/
def fillChunks (a b : α) : List (List α) → List (List α) → List (List α)
  | [], _ => []
  | chunk :: chunks, parts =>
    fill a b chunk parts :: fillChunks a b chunks (parts.drop (marks a b chunk))

/-- The template has so many marks, or more. -/
def HasMarks (a b : α) : ℕ → List α → Prop
  | 0, _ => True
  | n + 1, text => ∃ front back, cut a b text = some (front, back) ∧ HasMarks a b n back

/-- What is in front of the next place, the parts in theirs. -/
def lead (a b : α) : List α → List (List α) → List α
  | text, [] =>
    match cut a b text with
    | some (front, _) => front
    | none => text
  | text, part :: parts =>
    match cut a b text with
    | some (front, back) => front ++ part ++ lead a b back parts
    | none => text

/-- What is behind the next place. -/
def rest (a b : α) : List α → List (List α) → List α
  | text, [] =>
    match cut a b text with
    | some (_, back) => back
    | none => []
  | text, _ :: parts =>
    match cut a b text with
    | some (_, back) => rest a b back parts
    | none => []

/-- What is behind the places of the parts. -/
def remainder (a b : α) : List α → List (List α) → List α
  | text, [] => text
  | text, _ :: parts =>
    match cut a b text with
    | some (_, back) => remainder a b back parts
    | none => []

/-- No part that is not empty has a mark in front of its place, and the empty parts behind the last
such one come to theirs. -/
structure InPlace (a b : α) (text : List α) (parts : List (List α)) : Prop where
  front : ∀ earlier part later, parts = earlier ++ part :: later → part ≠ [] →
    cut a b (lead a b text earlier) = none
  behind : ∀ earlier n, parts = earlier ++ List.replicate n [] → earlier.getLast? ≠ some [] →
    replaceAll a b (remainder a b text earlier) (List.replicate n []) =
      fill a b (remainder a b text earlier) (List.replicate n [])

variable {a b : α} {text front back : List α} {parts : List (List α)}

/-- A text that is cut begins with the mark, or with a symbol in front of what is cut. -/
theorem cut_cases {P : List α → List α → Prop} (hmark : P (a :: b :: back) [])
    (hstep : ∀ x y text front, ¬(x = a ∧ y = b) → cut a b (y :: text) = some (front, back) →
      P (y :: text) front → P (x :: y :: text) (x :: front))
    (h : cut a b text = some (front, back)) : P text front := by
  induction text generalizing front with
  | nil => cases h
  | cons x text ih =>
    cases text with
    | nil => cases h
    | cons y text =>
      rw [cut] at h
      split_ifs at h with hxy
      · cases h
        rw [hxy.1, hxy.2]
        exact hmark
      · obtain ⟨⟨front', back'⟩, hcut, heq⟩ := Option.map_eq_some_iff.mp h
        cases heq
        exact hstep x y text front' hxy hcut (ih hcut)

theorem eq_of_cut (h : cut a b text = some (front, back)) : text = front ++ a :: b :: back := by
  refine cut_cases (P := fun text front => text = front ++ a :: b :: back) rfl ?_ h
  intro x y text front _ _ ih
  rw [List.cons_append, ← ih]

theorem cut_append_mark (hne : a ≠ b) (hfront : cut a b front = none) :
    cut a b (front ++ a :: b :: back) = some (front, back) := by
  induction front with
  | nil => rw [List.nil_append, cut, if_pos ⟨rfl, rfl⟩]
  | cons x front ih =>
    cases front with
    | nil =>
      have hmark : ¬(x = a ∧ a = b) := fun h => hne h.2
      rw [List.cons_append, List.nil_append, cut, if_neg hmark, cut, if_pos ⟨rfl, rfl⟩]
      rfl
    | cons y front =>
      rw [cut] at hfront
      split_ifs at hfront with hmark
      rw [Option.map_eq_none_iff] at hfront
      rw [List.cons_append, List.cons_append, cut, if_neg hmark, ← List.cons_append, ih hfront]
      rfl

variable {x sep : α} {part front' back' : List α} {n : ℕ}

theorem cut_cons (hx : x ≠ a) (text : List α) :
    cut a b (x :: text) = (cut a b text).map fun parts => (x :: parts.1, parts.2) := by
  cases text with
  | nil => rfl
  | cons y text => rw [cut, if_neg fun h => hx h.1]

/-- A text with a mark has a first one. -/
theorem cut_ne_none (h : text = front ++ a :: b :: back) : cut a b text ≠ none := by
  induction front generalizing text with
  | nil =>
    rw [h, List.nil_append, cut, if_pos ⟨rfl, rfl⟩]
    exact Option.some_ne_none _
  | cons x front ih =>
    rw [h, List.cons_append]
    have hih := ih rfl
    cases hrest : front ++ a :: b :: back with
    | nil => simp at hrest
    | cons y tail =>
      rw [hrest] at hih
      rw [cut]
      split_ifs
      · exact Option.some_ne_none _
      · rwa [Ne, Option.map_eq_none_iff]

theorem cut_eq_none_iff : cut a b text = none ↔ ∀ front back, text ≠ front ++ a :: b :: back := by
  constructor
  · intro hnone front back h
    exact cut_ne_none h hnone
  · intro h
    cases hcut : cut a b text with
    | none => rfl
    | some parts => exact absurd (eq_of_cut hcut) (h _ _)

/-- There is no mark in front of the first. -/
theorem cut_front (h : cut a b text = some (front, back)) :
    cut a b front = none := by
  refine cut_cases (P := fun _ front => cut a b front = none) rfl ?_ h
  intro x y text front hmark hcut ih
  have htext := eq_of_cut hcut
  cases front with
  | nil => rfl
  | cons z front =>
    cases htext
    rw [cut, if_neg hmark, ih]
    rfl

/-- A text in front of another has no more marks. -/
theorem cut_left {text' : List α} (h : cut a b (text ++ text') = none) : cut a b text = none := by
  rw [cut_eq_none_iff] at h ⊢
  rintro front back rfl
  apply h front (back ++ text')
  rw [List.append_assoc, List.cons_append, List.cons_append]

theorem replaceFirst_of_cut (h : cut a b text = some (front, back)) :
    replaceFirst a b text part = front ++ part ++ back := by
  rw [replaceFirst, h]

/-! ### The places of a template -/

theorem fill_cons (h : cut a b text = some (front, back)) :
    fill a b text (part :: parts) = front ++ part ++ fill a b back parts := by
  rw [fill, h]

/-- The template filled up to a place. -/
theorem fill_eq (h : HasMarks a b (parts.length + 1) text) :
    fill a b text parts = lead a b text parts ++ a :: b :: rest a b text parts := by
  induction parts generalizing text with
  | nil =>
    obtain ⟨front, back, hcut, -⟩ := h
    rw [fill, lead, rest, hcut]
    exact eq_of_cut hcut
  | cons part parts ih =>
    obtain ⟨front, back, hcut, hback⟩ := h
    rw [fill_cons hcut, lead, rest, hcut]
    dsimp only
    rw [ih hback, ← List.append_assoc, List.append_assoc (front ++ part)]

/-- The template filled up to a place, and behind it. -/
theorem fill_append_append (part : List α) (later : List (List α))
    (h : HasMarks a b (parts.length + 1) text) :
    fill a b text (parts ++ part :: later) =
      lead a b text parts ++ part ++ fill a b (rest a b text parts) later := by
  induction parts generalizing text with
  | nil =>
    obtain ⟨front, back, hcut, -⟩ := h
    rw [List.nil_append, fill_cons hcut, lead, rest, hcut]
  | cons q parts ih =>
    obtain ⟨front, back, hcut, hback⟩ := h
    rw [List.cons_append, fill_cons hcut, lead, rest, hcut]
    dsimp only
    rw [ih hback]
    simp only [List.append_assoc]

/-- The template filled at the next place. -/
theorem fill_append (part : List α) (h : HasMarks a b (parts.length + 1) text) :
    fill a b text (parts ++ [part]) = lead a b text parts ++ part ++ rest a b text parts :=
  fill_append_append part [] h

theorem lead_append (part : List α) (h : HasMarks a b (parts.length + 2) text) :
    lead a b text (parts ++ [part]) =
      lead a b text parts ++ part ++ lead a b (rest a b text parts) [] := by
  induction parts generalizing text with
  | nil =>
    obtain ⟨front, back, hcut, -⟩ := h
    simp only [List.nil_append, lead, rest, hcut]
  | cons q parts ih =>
    obtain ⟨front, back, hcut, hback⟩ := h
    simp only [List.cons_append, lead, rest, hcut]
    rw [← lead, ih hback]
    simp only [lead, List.append_assoc]

theorem HasMarks.of_succ (h : HasMarks a b (n + 1) text) : HasMarks a b n text := by
  induction n generalizing text with
  | zero => trivial
  | succ n ih =>
    obtain ⟨front, back, hcut, hback⟩ := h
    exact ⟨front, back, hcut, ih hback⟩

/-! ### One part after the other -/

theorem replaceAll_append (text : List α) (parts : List (List α)) (part : List α) :
    replaceAll a b text (parts ++ [part]) = replaceFirst a b (replaceAll a b text parts) part := by
  rw [replaceAll, replaceAll, List.foldl_append]
  rfl

/-- Without a mark in front of the next place, the parts are in theirs. -/
theorem replaceAll_eq_fill (hne : a ≠ b) (h : HasMarks a b (parts.length + 1) text)
    (hlead : cut a b (lead a b text parts) = none) :
    replaceAll a b text parts = fill a b text parts := by
  induction parts using List.reverseRecOn with
  | nil => rfl
  | append_singleton parts part ih =>
    rw [List.length_append, List.length_singleton] at h
    rw [lead_append part h, List.append_assoc] at hlead
    have hfront := cut_left hlead
    rw [replaceAll_append, ih h.of_succ hfront, fill_eq h.of_succ, fill_append part h.of_succ]
    exact replaceFirst_of_cut (cut_append_mark hne hfront)

/-- The parts come to their places if there is no mark in front of the last. -/
theorem replaceAll_append_eq_fill (hne : a ≠ b) (h : HasMarks a b (parts.length + 1) text)
    (hlead : cut a b (lead a b text parts) = none) (part : List α) :
    replaceAll a b text (parts ++ [part]) = fill a b text (parts ++ [part]) := by
  rw [replaceAll_append, replaceAll_eq_fill hne h hlead, fill_eq h, fill_append part h]
  exact replaceFirst_of_cut (cut_append_mark hne hlead)

variable {β : Type} {earlier : List (List α)}

/-- What goes past both symbols of the mark is nothing. -/
theorem eq_nil_of_commutes {a b : β} (hne : a ≠ b) {text : List β} (ha : a :: text = text ++ [a])
    (hb : b :: text = text ++ [b]) : text = [] := by
  cases text with
  | nil => rfl
  | cons x text =>
    have hx : a = x := by
      rw [List.cons_append, List.cons.injEq] at ha
      exact ha.1
    have hx' : b = x := by
      rw [List.cons_append, List.cons.injEq] at hb
      exact hb.1
    exact absurd (hx.trans hx'.symm) hne

/-- A part that may be anything has one place. -/
theorem eq_of_forall_insert {a b : β} (hne : a ≠ b) {u v l t : List β}
    (h : ∀ part, u ++ part ++ v = l ++ part ++ t) : u = l := by
  have hnil : u ++ v = l ++ t := by
    have hempty := h []
    rwa [List.append_nil, List.append_nil] at hempty
  have hcancel : ∀ {u t w : List β} {x : β}, u ++ [x] ++ (w ++ t) = u ++ w ++ [x] ++ t →
      x :: w = w ++ [x] := by
    intro u t w x hx
    rw [List.append_assoc, List.append_assoc, List.append_assoc, List.append_cancel_left_eq,
      ← List.append_assoc, ← List.append_assoc, List.append_cancel_right_eq] at hx
    exact hx
  rcases List.append_eq_append_iff.mp hnil with ⟨w, rfl, rfl⟩ | ⟨w, rfl, rfl⟩
  · rw [eq_nil_of_commutes hne (hcancel (h [a])) (hcancel (h [b])), List.append_nil]
  · rw [eq_nil_of_commutes hne (hcancel (h [a]).symm) (hcancel (h [b]).symm), List.append_nil]

/-- **One after the other** the parts come to their places, whatever the last one is, iff there is
no mark in front of the last place once the others are in theirs. -/
theorem replaceAll_eq_fill_iff (hne : a ≠ b) (h : HasMarks a b (parts.length + 1) text) :
    (∀ part, replaceAll a b text (parts ++ [part]) = fill a b text (parts ++ [part])) ↔
      cut a b (lead a b text parts) = none := by
  constructor
  · intro hall
    have hinsert : ∀ part, replaceFirst a b (replaceAll a b text parts) part =
        lead a b text parts ++ part ++ rest a b text parts := by
      intro part
      rw [← replaceAll_append, hall part, fill_append part h]
    cases hcut : cut a b (replaceAll a b text parts) with
    | none =>
      -- the text stays as it is, though the part may be of any length
      have hsame := (hinsert []).symm.trans
        ((show _ = replaceFirst a b (replaceAll a b text parts) [a] by
          rw [replaceFirst, replaceFirst, hcut]).trans (hinsert [a]))
      have hlength := congrArg List.length hsame
      simp only [List.length_append, List.length_nil, List.length_singleton] at hlength
      omega
    | some cutting =>
      obtain ⟨front, back⟩ := cutting
      have hfront : front = lead a b text parts := by
        apply eq_of_forall_insert hne
        intro part
        rw [← replaceFirst_of_cut hcut]
        exact hinsert part
      rw [← hfront]
      exact cut_front hcut
  · exact replaceAll_append_eq_fill hne h

/-! ### Parts without the symbols of the mark -/

theorem cut_append (h : cut a b text = some (front, back)) (text' : List α) :
    cut a b (text ++ text') = some (front, back ++ text') := by
  refine cut_cases (P := fun text front => cut a b (text ++ text') = some (front, back ++ text'))
    (if_pos ⟨rfl, rfl⟩) (fun x y text front hmark _ ih => ?_) h
  rw [List.cons_append] at ih
  rw [List.cons_append, List.cons_append, cut, if_neg hmark, ih]
  rfl

theorem HasMarks.of_le {m : ℕ} (hle : m ≤ n) (h : HasMarks a b n text) : HasMarks a b m text := by
  induction hle with
  | refl => exact h
  | step _ ih => exact ih h.of_succ

theorem remainder_append (part : List α) (h : HasMarks a b (parts.length + 1) text) :
    remainder a b text (parts ++ [part]) = rest a b text parts := by
  induction parts generalizing text with
  | nil =>
    obtain ⟨front, back, hcut, -⟩ := h
    rw [List.nil_append, remainder, rest, hcut]
    rfl
  | cons q parts ih =>
    obtain ⟨front, back, hcut, hback⟩ := h
    rw [List.cons_append, remainder, rest, hcut]
    exact ih hback

/-- A text that has no mark and does not end in the first symbol of one stays in front. -/
theorem cut_append_left (hnone : cut a b front = none) (hlast : front.getLast? ≠ some a)
    (text : List α) :
    cut a b (front ++ text) = (cut a b text).map fun parts => (front ++ parts.1, parts.2) := by
  induction front with
  | nil => cases hcut : cut a b text with
    | none => exact hcut
    | some parts => exact hcut
  | cons x front ih =>
    cases front with
    | nil =>
      have hx : x ≠ a := by
        rintro rfl
        exact hlast rfl
      exact cut_cons hx text
    | cons y front =>
      rw [cut] at hnone
      split_ifs at hnone with hmark
      rw [Option.map_eq_none_iff] at hnone
      rw [List.getLast?_cons_cons] at hlast
      have hih := ih hnone hlast
      rw [List.cons_append] at hih
      rw [List.cons_append, List.cons_append, cut, if_neg hmark, hih, Option.map_map]
      rfl

theorem replaceAll_append_left (hnone : cut a b front = none) (hlast : front.getLast? ≠ some a)
    (text : List α) (parts : List (List α)) :
    replaceAll a b (front ++ text) parts = front ++ replaceAll a b text parts := by
  induction parts generalizing text with
  | nil => rfl
  | cons part parts ih =>
    have hstep : replaceFirst a b (front ++ text) part = front ++ replaceFirst a b text part := by
      have hcut := cut_append_left hnone hlast text
      cases htext : cut a b text with
      | none =>
        rw [htext, Option.map_none] at hcut
        rw [replaceFirst, hcut, replaceFirst, htext]
      | some cutting =>
        rw [htext, Option.map_some] at hcut
        rw [replaceFirst, hcut, replaceFirst, htext]
        simp only [List.append_assoc]
    calc replaceAll a b (front ++ text) (part :: parts)
      _ = replaceAll a b (front ++ replaceFirst a b text part) parts := by rw [← hstep]; rfl
      _ = front ++ replaceAll a b (replaceFirst a b text part) parts := ih _

/-- The length of a text without the first symbols of a mark that it ends in. -/
def solid (a : α) : List α → ℕ
  | [] => 0
  | x :: text => if solid a text = 0 ∧ x = a then 0 else solid a text + 1

theorem solid_le_append (a : α) (text text' : List α) : solid a text ≤ solid a (text ++ text') := by
  induction text with
  | nil => exact Nat.zero_le _
  | cons x text ih =>
    rw [List.cons_append, solid, solid]
    split_ifs with h h' h'
    · exact Nat.le_refl _
    · exact Nat.zero_le _
    · exact absurd ⟨by omega, h'.2⟩ h
    · omega

theorem solid_append_singleton (a : α) (text : List α) : solid a (text ++ [a]) = solid a text := by
  induction text with
  | nil => exact if_pos ⟨rfl, rfl⟩
  | cons x text ih => rw [List.cons_append, solid, solid, ih]

theorem solid_le_length (a : α) (text : List α) : solid a text ≤ text.length := by
  induction text with
  | nil => exact Nat.le_refl _
  | cons x text ih =>
    rw [solid, List.length_cons]
    split_ifs
    · exact Nat.zero_le _
    · omega

theorem length_lt_solid (hx : x ≠ a) (text text' : List α) :
    text.length < solid a (text ++ x :: text') := by
  induction text with
  | nil =>
    rw [List.nil_append, solid, if_neg fun h => hx h.2]
    exact Nat.succ_pos _
  | cons y text ih =>
    rw [List.cons_append, solid, if_neg (by omega), List.length_cons]
    omega

/-- What is in front of the first mark loses at most first symbols of a mark when a part is put in
its place. -/
theorem solid_le_of_cut (h : cut a b text = some (front, back))
    (h' : cut a b (front ++ part ++ back) = some (front', back')) :
    solid a front ≤ solid a front' := by
  have hnone := cut_front h
  have heq := eq_of_cut h'
  rw [List.append_assoc, List.append_eq_append_iff] at heq
  rcases heq with ⟨z, rfl, -⟩ | ⟨z, hfront, hz⟩
  · exact solid_le_append a front z
  · -- the first mark begins in front of the place, with the last symbol there
    cases z with
    | nil =>
      rw [List.append_nil] at hfront
      exact Nat.le_of_eq (congrArg (solid a) hfront)
    | cons y z =>
      rw [List.cons_append, List.cons.injEq] at hz
      obtain ⟨rfl, hz⟩ := hz
      cases z with
      | nil => exact Nat.le_of_eq (by rw [hfront, solid_append_singleton])
      | cons w z =>
        rw [List.cons_append, List.cons.injEq] at hz
        rw [← hz.1] at hfront
        exact absurd hnone (cut_ne_none hfront)

/-- A part that is not empty stays in front of the next mark. -/
theorem solid_lt_of_cut (h : cut a b text = some (front, back)) (ha : a ∉ part) (hb : b ∉ part)
    (hpart : part ≠ []) (h' : cut a b (front ++ part ++ back) = some (front', back')) :
    solid a front < solid a front' := by
  have hnone := cut_front h
  cases part with
  | nil => exact absurd rfl hpart
  | cons x part =>
    have hx : x ≠ a := fun hxa => ha (hxa ▸ List.mem_cons_self)
    have hxb : x ≠ b := fun hxb => hb (hxb ▸ List.mem_cons_self)
    have heq := eq_of_cut h'
    rw [List.append_assoc, List.append_eq_append_iff] at heq
    rcases heq with ⟨z, rfl, hz⟩ | ⟨z, hfront, hz⟩
    · cases z with
      | nil =>
        rw [List.nil_append, List.cons_append, List.cons.injEq] at hz
        exact absurd hz.1 hx
      | cons y z =>
        rw [List.cons_append, List.cons_append, List.cons.injEq] at hz
        rw [← hz.1]
        exact Nat.lt_of_le_of_lt (solid_le_length a front) (length_lt_solid hx front z)
    · cases z with
      | nil =>
        rw [List.nil_append, List.cons_append, List.cons.injEq] at hz
        exact absurd hz.1.symm hx
      | cons y z =>
        rw [List.cons_append, List.cons.injEq] at hz
        obtain ⟨rfl, hz⟩ := hz
        cases z with
        | nil =>
          rw [List.nil_append, List.cons_append, List.cons.injEq] at hz
          exact absurd hz.1.symm hxb
        | cons w z =>
          rw [List.cons_append, List.cons.injEq] at hz
          rw [← hz.1] at hfront
          exact absurd hnone (cut_ne_none hfront)

/-- If a part is not empty, something else is in front of the first mark after all replacements. -/
theorem solid_lt_of_replaceAll (hparts : ∀ part ∈ parts, a ∉ part ∧ b ∉ part)
    (h : cut a b text = some (front, back))
    (h' : cut a b (replaceAll a b text parts) = some (front', back')) :
    solid a front ≤ solid a front' ∧ ((∃ part ∈ parts, part ≠ []) → solid a front < solid a front')
    := by
  induction parts generalizing text front back with
  | nil =>
    rw [replaceAll, List.foldl_nil, h, Option.some.injEq, Prod.mk.injEq] at h'
    rw [h'.1]
    exact ⟨Nat.le_refl _, fun ⟨part, hpart, _⟩ => absurd hpart List.not_mem_nil⟩
  | cons part parts ih =>
    have hpart := hparts part List.mem_cons_self
    have hrest : ∀ other ∈ parts, a ∉ other ∧ b ∉ other := fun other hother =>
      hparts other (List.mem_cons_of_mem _ hother)
    have hstep : replaceAll a b text (part :: parts) =
        replaceAll a b (front ++ part ++ back) parts := by
      rw [← replaceFirst_of_cut h]
      rfl
    rw [hstep] at h'
    cases hnext : cut a b (front ++ part ++ back) with
    | none =>
      -- without a mark no part is put anywhere, and there is none in the end
      have hstays : ∀ others : List (List α),
          replaceAll a b (front ++ part ++ back) others = front ++ part ++ back := by
        intro others
        induction others with
        | nil => rfl
        | cons other others ihOthers =>
          rw [replaceAll, List.foldl_cons, replaceFirst, hnext]
          exact ihOthers
      rw [hstays, hnext] at h'
      cases h'
    | some cutting =>
      obtain ⟨middle, tail⟩ := cutting
      obtain ⟨hle, hlt⟩ := ih hrest hnext h'
      refine ⟨Nat.le_trans (solid_le_of_cut h hnext) hle, ?_⟩
      rintro ⟨other, hother, hnonempty⟩
      rcases List.mem_cons.mp hother with rfl | hother
      · exact Nat.lt_of_lt_of_le (solid_lt_of_cut h hpart.1 hpart.2 hnonempty hnext) hle
      · exact Nat.lt_of_le_of_lt (solid_le_of_cut h hnext) (hlt ⟨other, hother, hnonempty⟩)

omit [DecidableEq α] in
theorem getLast?_append_ne (ha : a ∉ part) (hpart : part ≠ []) :
    (front ++ part).getLast? ≠ some a := by
  rw [List.getLast?_append]
  cases hlast : part.getLast? with
  | none => exact absurd (List.getLast?_eq_none_iff.mp hlast) hpart
  | some x =>
    intro h
    rw [Option.some_or, Option.some.injEq] at h
    exact ha (h ▸ List.mem_of_getLast? hlast)

/-- What a text and a part without symbols of the mark hold has the marks of the text. -/
theorem cut_append_part (hb : b ∉ part) (hfront : cut a b front = none) :
    cut a b (front ++ part) = none := by
  rw [cut_eq_none_iff]
  intro middle back heq
  rw [List.append_eq_append_iff] at heq
  rcases heq with ⟨z, rfl, hz⟩ | ⟨z, hz, hpart⟩
  · have hmem : b ∈ part := by
      rw [hz]
      exact List.mem_append_right _ (List.mem_cons_of_mem _ List.mem_cons_self)
    exact hb hmem
  · cases z with
    | nil =>
      have hmem : b ∈ part := by
        rw [List.nil_append] at hpart
        rw [← hpart]
        exact List.mem_cons_of_mem _ List.mem_cons_self
      exact hb hmem
    | cons y z =>
      rw [List.cons_append, List.cons.injEq] at hpart
      obtain ⟨rfl, hpart⟩ := hpart
      cases z with
      | nil =>
        rw [List.nil_append] at hpart
        exact hb (hpart ▸ List.mem_cons_self)
      | cons w z =>
        rw [List.cons_append, List.cons.injEq] at hpart
        rw [← hpart.1] at hz
        exact cut_ne_none hz hfront

omit [DecidableEq α] in
/-- The parts up to the last one that is not empty, and the empty ones behind. -/
theorem exists_eq_append_replicate (parts : List (List α)) :
    ∃ earlier n, parts = earlier ++ List.replicate n [] ∧ earlier.getLast? ≠ some [] := by
  induction parts using List.reverseRecOn with
  | nil => exact ⟨[], 0, rfl, nofun⟩
  | append_singleton parts part ih =>
    by_cases hpart : part = []
    · obtain ⟨earlier, n, hparts, hlast⟩ := ih
      refine ⟨earlier, n + 1, ?_, hlast⟩
      rw [hparts, hpart, List.append_assoc, List.replicate_succ']
    · refine ⟨parts ++ [part], 0, (List.append_nil _).symm, ?_⟩
      rw [List.getLast?_concat]
      intro h
      exact hpart (Option.some.inj h)

/-- Empty parts behind one that is not come to the text that is behind the place of this. -/
theorem replaceAll_behind (hne : a ≠ b) (h : HasMarks a b (earlier.length + 1) text) (ha : a ∉ part)
    (hb : b ∉ part) (hpart : part ≠ []) (hlead : cut a b (lead a b text earlier) = none) :
    replaceAll a b text ((earlier ++ [part]) ++ List.replicate n []) =
        fill a b text ((earlier ++ [part]) ++ List.replicate n []) ↔
      replaceAll a b (remainder a b text (earlier ++ [part])) (List.replicate n []) =
        fill a b (remainder a b text (earlier ++ [part])) (List.replicate n []) := by
  have hfilled := replaceAll_append_eq_fill hne h hlead part
  have hfront : cut a b (lead a b text earlier ++ part) = none := cut_append_part hb hlead
  have hlast : (lead a b text earlier ++ part).getLast? ≠ some a := getLast?_append_ne ha hpart
  have hsplit : replaceAll a b text ((earlier ++ [part]) ++ List.replicate n []) =
      replaceAll a b (replaceAll a b text (earlier ++ [part])) (List.replicate n []) :=
    List.foldl_append
  rw [hsplit, hfilled, fill_append part h, replaceAll_append_left hfront hlast,
    remainder_append part h, List.append_assoc earlier, List.singleton_append,
    fill_append_append part _ h, List.append_cancel_left_eq]

/-- A mark in front of the next place would keep a part that is not empty from its place. -/
theorem lead_of_replaceAll_eq (hne : a ≠ b) (hparts : ∀ part ∈ parts, a ∉ part ∧ b ∉ part)
    (h : HasMarks a b parts.length text) (heq : replaceAll a b text parts = fill a b text parts)
    {later : List (List α)} (hsplit : parts = earlier ++ later)
    (hlater : ∃ part ∈ later, part ≠ []) : cut a b (lead a b text earlier) = none := by
  induction earlier using List.reverseRecOn generalizing later with
  | nil =>
    obtain ⟨part, hpart, -⟩ := hlater
    have hpos : 0 < later.length := List.length_pos_of_mem hpart
    rw [hsplit] at h
    obtain ⟨front, back, hcut, -⟩ := h.of_le (m := 1) (by rwa [List.nil_append])
    rw [lead, hcut]
    exact cut_front hcut
  | append_singleton earlier previous ih =>
    have hprevious : cut a b (lead a b text earlier) = none := by
      apply @ih (previous :: later)
      · rw [hsplit, List.append_assoc, List.singleton_append]
      · obtain ⟨part, hpart, hnonempty⟩ := hlater
        exact ⟨part, List.mem_cons_of_mem _ hpart, hnonempty⟩
    cases later with
    | nil =>
      obtain ⟨part, hpart, -⟩ := hlater
      exact absurd hpart List.not_mem_nil
    | cons part later =>
      have hmarks : HasMarks a b ((earlier ++ [previous]).length + 1) text := by
        apply h.of_le
        rw [hsplit]
        simp only [List.length_append, List.length_cons, List.length_nil]
        omega
      have hmarks' : HasMarks a b (earlier.length + 1) text := by
        apply hmarks.of_le
        rw [List.length_append, List.length_singleton]
        omega
      have hfilled := replaceAll_append_eq_fill hne hmarks' hprevious previous
      cases hcut : cut a b (lead a b text (earlier ++ [previous])) with
      | none => rfl
      | some cutting =>
        -- this mark is in front of all that the later parts are put in place of, and in the end
        obtain ⟨front, back⟩ := cutting
        have hstart : cut a b (fill a b text (earlier ++ [previous])) =
            some (front, back ++ a :: b :: rest a b text (earlier ++ [previous])) := by
          rw [fill_eq hmarks]
          exact cut_append hcut _
        have hend : cut a b (replaceAll a b (fill a b text (earlier ++ [previous]))
            (part :: later)) = some (front, back ++ (part ++
              fill a b (rest a b text (earlier ++ [previous])) later)) := by
          have hwhole : replaceAll a b (fill a b text (earlier ++ [previous])) (part :: later) =
              replaceAll a b text parts := by
            rw [← hfilled, hsplit]
            exact List.foldl_append.symm
          rw [hwhole, heq, hsplit, fill_append_append part later hmarks, List.append_assoc]
          exact cut_append hcut _
        have hfree : ∀ other ∈ part :: later, a ∉ other ∧ b ∉ other := by
          intro other hother
          apply hparts
          rw [hsplit]
          exact List.mem_append_right _ hother
        have hlt := (solid_lt_of_replaceAll hfree hstart hend).2 hlater
        exact absurd hlt (Nat.lt_irrefl _)

/-- **One after the other**, parts without the symbols of the mark come to their places iff the
empty ones bring no mark about in front of a place that is still to be taken. -/
theorem replaceAll_eq_fill_iff_inPlace (hne : a ≠ b)
    (hparts : ∀ part ∈ parts, a ∉ part ∧ b ∉ part) (h : HasMarks a b parts.length text) :
    replaceAll a b text parts = fill a b text parts ↔ InPlace a b text parts := by
  have hbehind (hfront : ∀ earlier part later, parts = earlier ++ part :: later → part ≠ [] →
        cut a b (lead a b text earlier) = none) {earlier : List (List α)} {n : ℕ}
      (hsplit : parts = earlier ++ List.replicate n []) (hlast : earlier.getLast? ≠ some []) :
      replaceAll a b text parts = fill a b text parts ↔
        replaceAll a b (remainder a b text earlier) (List.replicate n []) =
          fill a b (remainder a b text earlier) (List.replicate n []) := by
    induction earlier using List.reverseRecOn with
    | nil => rw [hsplit, List.nil_append, remainder]
    | append_singleton earlier part _ =>
      rw [List.getLast?_concat] at hlast
      have hpart : part ≠ [] := fun hnil => hlast (congrArg some hnil)
      have hmem : part ∈ parts := by
        rw [hsplit]
        exact List.mem_append_left _ List.mem_concat_self
      have hmarks : HasMarks a b (earlier.length + 1) text := by
        apply h.of_le
        rw [hsplit, List.length_append, List.length_append, List.length_singleton]
        omega
      have hlead : cut a b (lead a b text earlier) = none := by
        apply hfront earlier part (List.replicate n [])
        · rw [hsplit, List.append_assoc, List.singleton_append]
        · exact hpart
      rw [hsplit]
      exact replaceAll_behind hne hmarks (hparts part hmem).1 (hparts part hmem).2 hpart hlead
  constructor
  · intro heq
    have hfront : ∀ earlier part later, parts = earlier ++ part :: later → part ≠ [] →
        cut a b (lead a b text earlier) = none := by
      intro earlier part later hsplit hpart
      exact lead_of_replaceAll_eq hne hparts h heq hsplit ⟨part, List.mem_cons_self, hpart⟩
    exact ⟨hfront, fun earlier n hsplit hlast => (hbehind hfront hsplit hlast).mp heq⟩
  · intro hplace
    obtain ⟨earlier, n, hsplit, hlast⟩ := exists_eq_append_replicate parts
    exact (hbehind hplace.front hsplit hlast).mpr (hplace.behind earlier n hsplit hlast)

/-! ### Chunks -/

theorem marks_of_cut (h : cut a b text = some (front, back)) :
    marks a b text = marks a b back + 1 := by
  refine cut_cases (P := fun text _ => marks a b text = marks a b back + 1)
    (if_pos ⟨rfl, rfl⟩) (fun x y text front hmark _ ih => ?_) h
  rw [marks, if_neg hmark, ih]

theorem marks_of_cut_none (h : cut a b text = none) : marks a b text = 0 := by
  induction text with
  | nil => rfl
  | cons x text ih =>
    cases text with
    | nil => rfl
    | cons y text =>
      rw [cut] at h
      split_ifs at h with hmark
      rw [Option.map_eq_none_iff] at h
      rw [marks, if_neg hmark]
      exact ih h

/-- There are as many marks as are counted. -/
theorem hasMarks_of_marks (h : marks a b text = n) : HasMarks a b n text := by
  induction n generalizing text with
  | zero => trivial
  | succ n ih =>
    cases hcut : cut a b text with
    | none =>
      rw [marks_of_cut_none hcut] at h
      cases h
    | some cutting =>
      obtain ⟨front, back⟩ := cutting
      rw [marks_of_cut hcut] at h
      exact ⟨front, back, hcut, ih (Nat.succ.inj h)⟩

/-- A symbol of no mark keeps what is behind it apart. -/
theorem cut_append_cons (ha : sep ≠ a) (hb : sep ≠ b) (h : cut a b text = none) (text' : List α) :
    cut a b (text ++ sep :: text') =
      (cut a b text').map fun parts => (text ++ sep :: parts.1, parts.2) := by
  induction text with
  | nil => exact cut_cons ha text'
  | cons x text ih =>
    cases text with
    | nil =>
      have hmark : ¬(x = a ∧ sep = b) := fun h => hb h.2
      rw [List.cons_append, List.nil_append, cut, if_neg hmark, cut_cons ha, Option.map_map]
      rfl
    | cons y text =>
      rw [cut] at h
      split_ifs at h with hmark
      rw [Option.map_eq_none_iff] at h
      have hih := ih h
      rw [List.cons_append] at hih
      rw [List.cons_append, List.cons_append, cut, if_neg hmark, hih, Option.map_map]
      rfl

/-- Up to a symbol of no mark, the text takes as many parts as it has marks. -/
theorem fill_append_cons (ha : sep ≠ a) (hb : sep ≠ b) (text text' : List α)
    (parts : List (List α)) : fill a b (text ++ sep :: text') parts =
      fill a b text parts ++ sep :: fill a b text' (parts.drop (marks a b text)) := by
  induction parts generalizing text with
  | nil => rw [fill, fill, List.drop_nil, fill]
  | cons part parts ih =>
    cases hcut : cut a b text with
    | some cutting =>
      obtain ⟨front, back⟩ := cutting
      rw [fill_cons (cut_append hcut _), fill_cons hcut, ih back, marks_of_cut hcut,
        List.drop_succ_cons]
      simp only [List.append_assoc]
    | none =>
      rw [marks_of_cut_none hcut, List.drop_zero]
      have hwhole := cut_append_cons ha hb hcut text'
      cases hcut' : cut a b text' with
      | some cutting =>
        obtain ⟨front, back⟩ := cutting
        rw [hcut', Option.map_some] at hwhole
        rw [fill_cons hwhole, fill_cons hcut', fill, hcut]
        simp only [List.append_assoc, List.cons_append]
      | none =>
        rw [hcut', Option.map_none] at hwhole
        rw [fill, hwhole, fill, hcut, fill, hcut']

/-- Symbols in a filled text are in the template or in a part. -/
theorem mem_or_mem_of_mem_fill (h : x ∈ fill a b text parts) :
    x ∈ text ∨ ∃ part ∈ parts, x ∈ part := by
  induction parts generalizing text with
  | nil => exact .inl h
  | cons part parts ih =>
    cases hcut : cut a b text with
    | none =>
      rw [fill, hcut] at h
      exact .inl h
    | some cutting =>
      obtain ⟨front, back⟩ := cutting
      rw [fill_cons hcut, List.mem_append, List.mem_append] at h
      have htext := eq_of_cut hcut
      rcases h with (h | h) | h
      · exact .inl (by rw [htext]; exact List.mem_append_left _ h)
      · exact .inr ⟨part, List.mem_cons_self, h⟩
      · rcases ih h with h | ⟨other, hother, hx⟩
        · left
          rw [htext]
          exact List.mem_append_right _ (List.mem_cons_of_mem _ (List.mem_cons_of_mem _ h))
        · exact .inr ⟨other, List.mem_cons_of_mem _ hother, hx⟩

/-- Where no part has the separator, the chunks of a filled template are its chunks filled. -/
theorem splitOn_fill (ha : sep ≠ a) (hb : sep ≠ b) (hparts : ∀ part ∈ parts, sep ∉ part) :
    (fill a b text parts).splitOn sep = fillChunks a b (text.splitOn sep) parts := by
  have hfilled : ∀ chunk : List α, sep ∉ chunk → ∀ parts : List (List α),
      (∀ part ∈ parts, sep ∉ part) → sep ∉ fill a b chunk parts := by
    intro chunk hchunk parts hparts hmem
    rcases mem_or_mem_of_mem_fill hmem with h | ⟨part, hpart, h⟩
    · exact hchunk h
    · exact hparts part hpart h
  induction hlength : text.length using Nat.strongRecOn generalizing text parts with
  | ind n ih =>
    by_cases hmem : sep ∈ text
    · obtain ⟨chunk, text', rfl, hchunk⟩ := List.eq_append_cons_of_mem hmem
      rw [fill_append_cons ha hb,
        List.splitOn_append_cons_self_of_not_mem (hfilled _ hchunk _ hparts),
        List.splitOn_append_cons_self_of_not_mem hchunk, fillChunks]
      congr 1
      have hlt : text'.length < n := by
        rw [← hlength, List.length_append, List.length_cons]
        omega
      exact ih _ hlt (fun part hpart => hparts part (List.mem_of_mem_drop hpart)) rfl
    · rw [List.splitOn_eq_singleton hmem, List.splitOn_eq_singleton (hfilled _ hmem _ hparts)]
      rfl

/-- A template is filled up to a symbol that no part has as what is in front of it. -/
theorem takeWhile_fill {p : α → Bool} (ha : p a = true) (hb : p b = true)
    (hparts : ∀ part ∈ parts, ∀ x ∈ part, p x = true) :
    (fill a b text parts).takeWhile p = fill a b (text.takeWhile p) parts := by
  have hinside : ∀ x ∈ fill a b (text.takeWhile p) parts, p x = true := by
    intro x hx
    rcases mem_or_mem_of_mem_fill hx with hmem | ⟨part, hpart, hmem⟩
    · exact List.mem_takeWhile_imp hmem
    · exact hparts part hpart x hmem
  have htext : text = text.takeWhile p ++ text.dropWhile p := List.takeWhile_append_dropWhile.symm
  cases hdrop : text.dropWhile p with
  | nil =>
    rw [hdrop, List.append_nil] at htext
    rw [← htext] at hinside ⊢
    exact List.takeWhile_eq_self_iff.mpr hinside
  | cons x back =>
    have hx : p x = false := by
      have hhead := List.head?_dropWhile_not p text
      rw [hdrop] at hhead
      exact hhead
    have hxa : x ≠ a := by
      rintro rfl
      rw [hx] at ha
      cases ha
    have hxb : x ≠ b := by
      rintro rfl
      rw [hx] at hb
      cases hb
    have hfill : fill a b text parts = fill a b (text.takeWhile p) parts ++
        x :: fill a b back (parts.drop (marks a b (text.takeWhile p))) := by
      rw [← fill_append_cons hxa hxb, ← hdrop, ← htext]
    rw [hfill, List.takeWhile_append_of_pos hinside, List.takeWhile_cons, hx]
    exact List.append_nil _

/-- Parts that are other parts wherever these have a property fill a text to the same, if it comes
to have the property. -/
theorem fill_eq_of_forall {P : α → Prop} {others : List (List α)}
    (h : List.Forall₂ (fun part other => (∀ x ∈ part, P x) → other = part) parts others)
    (hall : ∀ x ∈ fill a b text parts, P x) : fill a b text others = fill a b text parts := by
  induction h generalizing text with
  | nil => rfl
  | @cons part other parts others hpart _ ih =>
    cases hcut : cut a b text with
    | none => rw [fill, fill, hcut]
    | some cutting =>
      obtain ⟨front, back⟩ := cutting
      rw [fill_cons hcut] at hall
      rw [fill_cons hcut, fill_cons hcut]
      have hsame : other = part := by
        apply hpart
        intro x hx
        exact hall x (List.mem_append_left _ (List.mem_append_right _ hx))
      have hrest : fill a b back others = fill a b back parts := by
        apply ih
        intro x hx
        exact hall x (List.mem_append_right _ hx)
      rw [hsame, hrest]

end Lnpl.Lib.Placeholders
