import Mathlib.Algebra.Ring.Nat
import Mathlib.Data.List.Basic

/-!
# Words

`words p xs` cuts a list at the elements that satisfy `p` and drops the empty pieces.  A word is a
piece that can come out: it is nonempty and no element of it is a separator (`IsWord`).  Words
joined by separators are cut again into the same words.
-/

namespace Lnpl.Lib

variable {α : Type*} {p : α → Bool}

/-- The pieces of a list between the separators, without the empty ones. -/
def words (p : α → Bool) (xs : List α) : List (List α) :=
  (xs.splitOnP p).filter fun w => !w.isEmpty

/-- A nonempty list without a separator. -/
structure IsWord (p : α → Bool) (w : List α) : Prop where
  nonempty : w ≠ []
  clean : ∀ x ∈ w, p x = false

variable {xs w : List α} {sep : α} {i j : Nat}

/-- The pieces of a list consist of its elements that are no separators. -/
theorem mem_of_mem_splitOnP (hw : w ∈ xs.splitOnP p) : ∀ x ∈ w, x ∈ xs ∧ p x = false := by
  induction xs generalizing w with
  | nil =>
    rw [List.splitOnP_nil, List.mem_singleton] at hw
    subst hw
    simp
  | cons y ys ih =>
    rw [List.splitOnP_cons_eq_if_modifyHead] at hw
    obtain ⟨head, tail, hsplit⟩ := List.exists_cons_of_ne_nil (List.splitOnP_ne_nil p ys)
    rw [hsplit] at hw ih
    have hlater {v : List α} (hv : v ∈ head :: tail) : ∀ x ∈ v, x ∈ y :: ys ∧ p x = false :=
      fun x hx => ⟨List.mem_cons_of_mem y (ih hv x hx).1, (ih hv x hx).2⟩
    split at hw
    · rcases List.mem_cons.mp hw with rfl | hw
      · simp
      · exact hlater hw
    · next hy =>
      rw [List.modifyHead_cons] at hw
      rcases List.mem_cons.mp hw with rfl | hw
      · exact List.forall_mem_cons.mpr
          ⟨⟨List.mem_cons_self, by simpa using hy⟩, hlater List.mem_cons_self⟩
      · exact hlater (List.mem_cons_of_mem head hw)

theorem isWord_of_mem_words (hw : w ∈ words p xs) : IsWord p w := by
  rw [words, List.mem_filter] at hw
  exact ⟨by simpa using hw.2, fun x hx => (mem_of_mem_splitOnP hw.1 x hx).2⟩

@[simp]
theorem words_nil : words p [] = [] := by
  simp [words, List.splitOnP_nil]

/-- A separator ends the words before it. -/
theorem words_append_cons (xs ys : List α) (hsep : p sep = true) :
    words p (xs ++ sep :: ys) = words p xs ++ words p ys := by
  rw [words, List.splitOnP_append_cons xs ys hsep, List.filter_append]
  rfl

/-- A word is cut into itself. -/
theorem IsWord.words_eq (hw : IsWord p w) : words p w = [w] := by
  have hne : w.isEmpty = false := by simpa using hw.nonempty
  rw [words, List.splitOnP_eq_singleton hw.clean]
  simp [hne]

/-- A word followed by a separator is the first word. -/
theorem IsWord.words_cons (hw : IsWord p w) (ys : List α) (hsep : p sep = true) :
    words p (w ++ sep :: ys) = w :: words p ys := by
  rw [words_append_cons w ys hsep, hw.words_eq]
  rfl

/-- Words joined by separators are cut again into the same words. -/
theorem words_intercalate {ws : List (List α)} (hws : ∀ w ∈ ws, IsWord p w) (hsep : p sep = true) :
    words p ([sep].intercalate ws) = ws := by
  induction ws with
  | nil => simp
  | cons w ws ih =>
    have hw := hws w List.mem_cons_self
    cases ws with
    | nil => rw [List.intercalate_singleton, hw.words_eq]
    | cons v vs =>
      have htail := ih fun u hu => hws u (List.mem_cons_of_mem w hu)
      rw [List.intercalate_cons_cons, List.append_assoc, List.singleton_append,
        hw.words_cons _ hsep, htail]

/-! ### Where the words stand -/

/-- The words of a list, each with its place, where the list starts at `i`. -/
def wordsAt (p : α → Bool) (i : Nat) : List α → List (Nat × List α)
  | [] => []
  | x :: xs =>
    if p x then wordsAt p (i + 1) xs
    else
      match wordsAt p (i + 1) xs with
      | [] => [(i, [x])]
      | (j, w) :: more => if j = i + 1 then (i, x :: w) :: more else (i, [x]) :: (j, w) :: more

/-- A separator before a list adds no word. -/
theorem words_cons_of_pos {x : α} (hx : p x = true) (xs : List α) : words p (x :: xs) = words p xs :=
  words_append_cons [] xs hx

/-- What a list starts with, up to its first separator, is its first word. -/
theorem wordsAt_cons (i : Nat) (xs : List α) :
    (∃ w more, wordsAt p i xs = (i, w) :: more ∧ xs.takeWhile (fun x => !p x) = w ∧ w ≠ []) ∨
      ((∀ j w more, wordsAt p i xs = (j, w) :: more → i < j) ∧
        xs.takeWhile (fun x => !p x) = []) := by
  induction xs generalizing i with
  | nil =>
    refine Or.inr ⟨fun _ _ _ h => ?_, rfl⟩
    cases h
  | cons x xs ih =>
    rw [wordsAt, List.takeWhile_cons]
    cases hx : p x with
    | true =>
      right
      refine ⟨fun j w more h => ?_, rfl⟩
      rw [if_pos rfl] at h
      rcases ih (i + 1) with ⟨w', more', hat, -, -⟩ | ⟨hlater, -⟩
      · rw [hat] at h
        rw [← (Prod.mk.inj (List.cons.inj h).1).1]
        omega
      · have hlt := hlater j w more h
        omega
    | false =>
      left
      rw [if_neg Bool.false_ne_true]
      rcases ih (i + 1) with ⟨w', more', hat, hw, -⟩ | ⟨hlater, hw⟩
      · rw [hat, hw]
        exact ⟨x :: w', more', if_pos rfl, rfl, List.cons_ne_nil _ _⟩
      · cases hat : wordsAt p (i + 1) xs with
        | nil => exact ⟨[x], [], rfl, by rw [hw]; rfl, List.cons_ne_nil _ _⟩
        | cons found more =>
          have hlt := hlater found.1 found.2 more hat
          exact ⟨[x], found :: more, if_neg (by omega), by rw [hw]; rfl, List.cons_ne_nil _ _⟩

theorem splitOnP_eq_cons (xs : List α) :
    ∃ more, xs.splitOnP p = xs.takeWhile (fun x => !p x) :: more := by
  induction xs with
  | nil => exact ⟨[], List.splitOnP_nil⟩
  | cons x xs ih =>
    obtain ⟨more, hmore⟩ := ih
    rw [List.splitOnP_cons_eq_if_modifyHead, List.takeWhile_cons, hmore]
    cases p x with
    | true => exact ⟨_, rfl⟩
    | false => exact ⟨more, rfl⟩

/-- The words found with their places are the words. -/
theorem snd_wordsAt (i : Nat) (xs : List α) : (wordsAt p i xs).map Prod.snd = words p xs := by
  induction xs generalizing i with
  | nil => exact words_nil.symm
  | cons x xs ih =>
    have hrest := ih (i + 1)
    obtain ⟨tail, htail⟩ := splitOnP_eq_cons (p := p) xs
    rw [words, htail, List.filter_cons] at hrest
    rw [wordsAt, words, List.splitOnP_cons_eq_if_modifyHead, htail]
    cases hx : p x with
    | true =>
      rw [if_pos rfl, if_pos rfl, ih (i + 1), words, htail]
      rfl
    | false =>
      rw [if_neg Bool.false_ne_true, if_neg Bool.false_ne_true, List.modifyHead_cons,
        List.filter_cons]
      rcases wordsAt_cons (p := p) (i + 1) xs with ⟨w, more, hat, hw, hne⟩ | ⟨hlater, hw⟩
      · have hnonempty : (!w.isEmpty) = true := by simpa using hne
        rw [hat, hw, hnonempty, if_pos rfl] at hrest
        rw [hat, hw]
        show ((if i + 1 = i + 1 then (i, x :: w) :: more else _).map Prod.snd) = _
        rw [if_pos rfl]
        exact congrArg ((x :: w) :: ·) (List.cons.inj hrest).2
      · have hsingle : (match wordsAt p (i + 1) xs with
            | [] => [(i, [x])]
            | (j, w) :: more => if j = i + 1 then (i, x :: w) :: more
              else (i, [x]) :: (j, w) :: more) = (i, [x]) :: wordsAt p (i + 1) xs := by
          cases hat : wordsAt p (i + 1) xs with
          | nil => rfl
          | cons found more =>
            have hlt := hlater found.1 found.2 more hat
            exact if_neg (by omega)
        rw [hw] at hrest
        rw [hsingle, hw, List.map_cons, hrest]
        rfl

/-- Where there is no word, there are separators only. -/
theorem forall_of_words_eq_nil (h : words p xs = []) : ∀ x ∈ xs, p x = true := by
  induction xs with
  | nil => exact fun _ hx => nomatch hx
  | cons x xs ih =>
    cases hx : p x with
    | true =>
      rw [words_cons_of_pos hx] at h
      exact List.forall_mem_cons.mpr ⟨hx, ih h⟩
    | false =>
      rw [← snd_wordsAt 0, wordsAt, hx, if_neg Bool.false_ne_true, List.map_eq_nil_iff] at h
      split at h
      · cases h
      · split at h <;> cases h

/-- A word stands at its place, and before the first word stand separators only. -/
theorem split_of_mem_wordsAt (h : (j, w) ∈ wordsAt p i xs) :
    ∃ front rest, xs = front ++ w ++ rest ∧ j = i + front.length := by
  induction xs generalizing i j w with
  | nil => cases h
  | cons x xs ih =>
    have hlater : (j, w) ∈ wordsAt p (i + 1) xs →
        ∃ front rest, x :: xs = front ++ w ++ rest ∧ j = i + front.length := by
      intro hmem
      obtain ⟨front, rest, rfl, rfl⟩ := ih hmem
      exact ⟨x :: front, rest, rfl, by rw [List.length_cons]; omega⟩
    rw [wordsAt] at h
    split at h
    · exact hlater h
    · cases hat : wordsAt p (i + 1) xs with
      | nil =>
        rw [hat] at h
        obtain ⟨rfl, rfl⟩ := Prod.mk.inj (List.mem_singleton.mp h)
        exact ⟨[], xs, rfl, rfl⟩
      | cons found more =>
        simp only [hat] at h
        split at h
        · next hnext =>
          rcases List.mem_cons.mp h with heq | hmem
          · obtain ⟨rfl, rfl⟩ := Prod.mk.inj heq
            obtain ⟨front, rest, hxs, hfront⟩ := @ih found.2 (j + 1) found.1
              (by rw [hat]; exact List.mem_cons_self)
            have hnil : front = [] := List.eq_nil_of_length_eq_zero (by omega)
            refine ⟨[], rest, ?_, rfl⟩
            rw [hxs, hnil]
            rfl
          · exact hlater (by rw [hat]; exact List.mem_cons_of_mem _ hmem)
        · rcases List.mem_cons.mp h with heq | hmem
          · obtain ⟨rfl, rfl⟩ := Prod.mk.inj heq
            exact ⟨[], xs, rfl, rfl⟩
          · exact hlater (by rw [hat]; exact hmem)

/-- Before the first word stand separators only. -/
theorem front_of_wordsAt {more : List (Nat × List α)} (h : wordsAt p i xs = (j, w) :: more) :
    ∀ x ∈ xs.take (j - i), p x = true := by
  induction xs generalizing i with
  | nil => cases h
  | cons x xs ih =>
    rcases wordsAt_cons (p := p) i (x :: xs) with ⟨w', more', hat, -, -⟩ | ⟨hlater, hw⟩
    · rw [hat] at h
      obtain ⟨rfl, -⟩ := Prod.mk.inj (List.cons.inj h).1
      rw [Nat.sub_self, List.take_zero]
      exact fun _ hx => nomatch hx
    · have hlt := hlater j w more h
      have hx : p x = true := by
        cases hx : p x with
        | true => rfl
        | false =>
          rw [List.takeWhile_cons, hx] at hw
          cases hw
      rw [wordsAt, if_pos hx] at h
      obtain ⟨k, rfl⟩ := Nat.exists_eq_add_of_lt hlt
      have hsub : i + k + 1 - i = (i + k + 1 - (i + 1)) + 1 := by omega
      rw [hsub, List.take_succ_cons]
      exact List.forall_mem_cons.mpr ⟨hx, ih h⟩

end Lnpl.Lib

/-!
## Lines and positions

A text is broken into lines by single elements and by one pair of them, which is one break.  Two
ways to break may differ in the single elements; what they share is the pair, so that a place where
a line of one starts never lies inside a break of the other.  A position is a line and a column
that counts units, of which an element may have more than one; the position of an offset reads back
as that offset (`offset_position`).
-/

namespace Lnpl.Lib

/-- What breaks a text: these elements, and the pair as one. -/
structure Breaks (α : Type*) where
  cr : α
  lf : α
  isBreak : α → Bool
  cr_ne_lf : cr ≠ lf
  isBreak_cr : isBreak cr = true
  isBreak_lf : isBreak lf = true

namespace Breaks

variable {α : Type*} [DecidableEq α]

/-- The lines, each with its break. -/
def lines (b : Breaks α) : List α → List (List α)
  | [] => []
  | [x] => [[x]]
  | x :: y :: rest =>
    if x = b.cr ∧ y = b.lf then [x, y] :: b.lines rest
    else if b.isBreak x then [x] :: b.lines (y :: rest)
    else (b.lines (y :: rest)).modifyHead (x :: ·)

/-- A line without its break. -/
def content (b : Breaks α) (line : List α) : List α := line.takeWhile fun x => !b.isBreak x

/-- Where the breaks end, in a text that starts at `i`. -/
def ends (b : Breaks α) (i : Nat) : List α → List Nat
  | [] => []
  | [x] => if b.isBreak x then [i + 1] else []
  | x :: y :: rest =>
    if x = b.cr ∧ y = b.lf then (i + 2) :: b.ends (i + 2) rest
    else if b.isBreak x then (i + 1) :: b.ends (i + 1) (y :: rest)
    else b.ends (i + 1) (y :: rest)

/-- Where the last line of a text starts. -/
def lastStart (b : Breaks α) (text : List α) : Nat := (b.ends 0 text).getLast?.getD 0

/-- Where the line of a number starts, and its elements. -/
def line? (b : Breaks α) (text : List α) (n : Nat) : Option (Nat × List α) :=
  (0 :: b.ends 0 text)[n]?.map fun start => (start, b.content (text.drop start))

/-- How many elements make up so many units, if these end between two of them. -/
def elementsOf (units : α → Nat) : Nat → List α → Option Nat
  | 0, _ => some 0
  | _ + 1, [] => none
  | k + 1, x :: rest =>
    if units x ≤ k + 1 then (elementsOf units (k + 1 - units x) rest).map (· + 1) else none

/-- The offset that a line and a column name. -/
def offset (b : Breaks α) (units : α → Nat) (text : List α) (line column : Nat) : Option Nat :=
  (b.line? text line).bind fun found => (elementsOf units column found.2).map (found.1 + ·)

variable (b : Breaks α)

/-! ### Lines -/

theorem lines_ne_nil {text : List α} (h : text ≠ []) : b.lines text ≠ [] := by
  induction text using lines.induct b with
  | case1 => exact absurd rfl h
  | case2 x => exact List.cons_ne_nil _ _
  | case3 x y rest hpair ih =>
    rw [lines, if_pos hpair]
    exact List.cons_ne_nil _ _
  | case4 x y rest hpair hbreak ih =>
    rw [lines, if_neg hpair, if_pos hbreak]
    exact List.cons_ne_nil _ _
  | case5 x y rest hpair hbreak ih =>
    obtain ⟨line, more, hlines⟩ := List.exists_cons_of_ne_nil (ih (List.cons_ne_nil _ _))
    rw [lines, if_neg hpair, if_neg hbreak, hlines]
    exact List.cons_ne_nil _ _

/-- The lines are the text. -/
theorem flatten_lines (text : List α) : (b.lines text).flatten = text := by
  induction text using lines.induct b with
  | case1 => rfl
  | case2 x => rfl
  | case3 x y rest hpair ih =>
    rw [lines, if_pos hpair, List.flatten_cons, ih]
    rfl
  | case4 x y rest hpair hbreak ih =>
    rw [lines, if_neg hpair, if_pos hbreak, List.flatten_cons, ih]
    rfl
  | case5 x y rest hpair hbreak ih =>
    obtain ⟨line, more, hlines⟩ :=
      List.exists_cons_of_ne_nil (b.lines_ne_nil (List.cons_ne_nil y rest))
    rw [lines, if_neg hpair, if_neg hbreak, hlines, List.modifyHead_cons]
    rw [hlines] at ih
    rw [List.flatten_cons, List.cons_append, ← List.flatten_cons, ih]

/-- A break lies across the end of the first text. -/
def Straddles (before after : List α) : Prop :=
  before.getLast? = some b.cr ∧ after.head? = some b.lf

/-- No break lies across the end of a line. -/
theorem not_straddles_lines (text : List α) (n : Nat) :
    ¬b.Straddles ((b.lines text).take n).flatten ((b.lines text).drop n).flatten := by
  induction text using lines.induct b generalizing n with
  | case1 =>
    rintro ⟨hlast, -⟩
    rw [lines, List.take_nil] at hlast
    cases hlast
  | case2 x =>
    rintro ⟨hlast, hfirst⟩
    cases n with
    | zero => cases hlast
    | succ n =>
      rw [lines, List.drop_succ_cons, List.drop_nil] at hfirst
      cases hfirst
  | case3 x y rest hpair ih =>
    rw [lines, if_pos hpair]
    cases n with
    | zero =>
      rintro ⟨hlast, -⟩
      cases hlast
    | succ n =>
      rintro ⟨hlast, hfirst⟩
      rw [List.take_succ_cons, List.flatten_cons, List.getLast?_append] at hlast
      cases hbefore : ((b.lines rest).take n).flatten.getLast? with
      | none =>
        rw [hbefore] at hlast
        have hy : y = b.cr := Option.some.inj hlast
        exact b.cr_ne_lf (hy.symm.trans hpair.2)
      | some z =>
        rw [hbefore] at hlast
        exact ih n ⟨hbefore.trans hlast, hfirst⟩
  | case4 x y rest hpair hbreak ih =>
    rw [lines, if_neg hpair, if_pos hbreak]
    cases n with
    | zero =>
      rintro ⟨hlast, -⟩
      cases hlast
    | succ n =>
      rintro ⟨hlast, hfirst⟩
      rw [List.take_succ_cons, List.flatten_cons, List.getLast?_append] at hlast
      rw [List.drop_succ_cons] at hfirst
      cases hbefore : ((b.lines (y :: rest)).take n).flatten.getLast? with
      | none =>
        rw [hbefore] at hlast
        have hx : x = b.cr := Option.some.inj hlast
        have hnil := List.getLast?_eq_none_iff.mp hbefore
        have htext := b.flatten_lines (y :: rest)
        rw [← List.take_append_drop n (b.lines (y :: rest)), List.flatten_append, hnil,
          List.nil_append] at htext
        rw [htext] at hfirst
        exact hpair ⟨hx, Option.some.inj hfirst⟩
      | some z =>
        rw [hbefore] at hlast
        exact ih n ⟨hbefore.trans hlast, hfirst⟩
  | case5 x y rest hpair hbreak ih =>
    obtain ⟨line, more, hlines⟩ :=
      List.exists_cons_of_ne_nil (b.lines_ne_nil (List.cons_ne_nil y rest))
    rw [lines, if_neg hpair, if_neg hbreak, hlines, List.modifyHead_cons]
    rw [hlines] at ih
    cases n with
    | zero =>
      rintro ⟨hlast, -⟩
      cases hlast
    | succ n =>
      rintro ⟨hlast, hfirst⟩
      refine ih (n + 1) ⟨?_, hfirst⟩
      rw [List.take_succ_cons, List.flatten_cons] at hlast ⊢
      rw [List.cons_append, List.getLast?_cons] at hlast
      cases hbefore : (line ++ (more.take n).flatten).getLast? with
      | none =>
        rw [hbefore] at hlast
        have hx : x = b.cr := Option.some.inj hlast
        rw [hx, b.isBreak_cr] at hbreak
        exact absurd rfl hbreak
      | some z =>
        rw [hbefore] at hlast
        exact hlast

/-! ### Breaks -/

variable {x y : α} {before after : List α}

omit [DecidableEq α] in
theorem Straddles.cons (h : b.Straddles before after) : b.Straddles (x :: before) after := by
  refine ⟨?_, h.2⟩
  rw [List.getLast?_cons, h.1]
  rfl

theorem ends_cons_cons (hpair : ¬(x = b.cr ∧ y = b.lf)) (i : Nat) (rest : List α) :
    b.ends i (x :: y :: rest) =
      (if b.isBreak x then [i + 1] else []) ++ b.ends (i + 1) (y :: rest) := by
  rw [ends, if_neg hpair]
  cases b.isBreak x <;> rfl

/-- A text without a break, in front of another, adds none. -/
theorem ends_clean {clean : List α} (h : ∀ x ∈ clean, b.isBreak x = false) (i : Nat)
    (after : List α) : b.ends i (clean ++ after) = b.ends (i + clean.length) after := by
  induction clean generalizing i with
  | nil => rfl
  | cons x clean ih =>
    have hx := h x List.mem_cons_self
    have hrest := ih (fun y hy => h y (List.mem_cons_of_mem _ hy)) (i + 1)
    rw [List.length_cons, Nat.add_comm clean.length 1, ← Nat.add_assoc, ← hrest]
    cases hafter : clean ++ after with
    | nil =>
      rw [List.cons_append, hafter]
      show (if b.isBreak x then [i + 1] else []) = []
      rw [hx]
      rfl
    | cons y rest =>
      have hpair : ¬(x = b.cr ∧ y = b.lf) := by
        rintro ⟨rfl, -⟩
        rw [b.isBreak_cr] at hx
        cases hx
      rw [List.cons_append, hafter, b.ends_cons_cons hpair, hx]
      rfl

/-- **Breaks of two texts**: those of the first, and those of the second, where none straddles. -/
theorem ends_append (h : ¬b.Straddles before after) (i : Nat) :
    b.ends i (before ++ after) = b.ends i before ++ b.ends (i + before.length) after := by
  induction before using lines.induct b generalizing i with
  | case1 => rfl
  | case2 x =>
    cases after with
    | nil => rw [List.append_nil, ends, List.append_nil]
    | cons y after =>
      have hpair : ¬(x = b.cr ∧ y = b.lf) := by
        rintro ⟨rfl, rfl⟩
        exact h ⟨rfl, rfl⟩
      rw [List.singleton_append, b.ends_cons_cons hpair, List.length_singleton, ends]
  | case3 x y rest hpair ih =>
    have hlength : i + (x :: y :: rest).length = i + 2 + rest.length := by
      rw [List.length_cons, List.length_cons]
      omega
    rw [List.cons_append, List.cons_append, ends, ends, if_pos hpair, if_pos hpair,
      ih fun hrest => h hrest.cons.cons, List.cons_append, hlength]
  | case4 x y rest hpair hbreak ih | case5 x y rest hpair hbreak ih =>
    have hcons := ih (fun hrest => h hrest.cons) (i + 1)
    have hlength : i + (x :: y :: rest).length = i + 1 + (y :: rest).length := by
      rw [List.length_cons, Nat.add_right_comm, Nat.add_assoc]
    rw [List.cons_append] at hcons
    rw [List.cons_append, List.cons_append, b.ends_cons_cons hpair, b.ends_cons_cons hpair, hcons,
      List.append_assoc, hlength]

/-- The last line starts inside the text, and no break is in it. -/
theorem clean_lastStart (text : List α) (i : Nat) :
    i ≤ (b.ends i text).getLast?.getD i ∧ (b.ends i text).getLast?.getD i ≤ i + text.length ∧
      ∀ x ∈ text.drop ((b.ends i text).getLast?.getD i - i), b.isBreak x = false := by
  induction text using lines.induct b generalizing i with
  | case1 =>
    refine ⟨Nat.le_refl _, Nat.le_refl _, fun x hx => ?_⟩
    rw [List.drop_nil] at hx
    cases hx
  | case2 x =>
    rw [ends]
    cases hx : b.isBreak x with
    | false =>
      refine ⟨Nat.le_refl _, Nat.le_add_right _ _, fun y hy => ?_⟩
      rw [if_neg Bool.false_ne_true, List.getLast?_nil, Option.getD_none, Nat.sub_self,
        List.drop_zero, List.mem_singleton] at hy
      rw [hy, hx]
    | true =>
      refine ⟨Nat.le_add_right _ _, Nat.le_refl _, fun y hy => ?_⟩
      rw [if_pos rfl, List.getLast?_singleton, Option.getD_some, Nat.add_sub_cancel_left] at hy
      cases hy
  | case3 x y rest hpair ih =>
    obtain ⟨hle, hlt, hclean⟩ := ih (i + 2)
    rw [ends, if_pos hpair, List.getLast?_cons, Option.getD_some, List.length_cons,
      List.length_cons]
    have hdrop : (b.ends (i + 2) rest).getLast?.getD (i + 2) - i =
        (b.ends (i + 2) rest).getLast?.getD (i + 2) - (i + 2) + 2 := by omega
    refine ⟨by omega, by omega, ?_⟩
    rw [hdrop]
    exact hclean
  | case4 x y rest hpair hbreak ih =>
    obtain ⟨hle, hlt, hclean⟩ := ih (i + 1)
    rw [ends, if_neg hpair, if_pos hbreak, List.getLast?_cons, Option.getD_some]
    have hlength : (x :: y :: rest).length = (y :: rest).length + 1 := List.length_cons
    have hdrop : (b.ends (i + 1) (y :: rest)).getLast?.getD (i + 1) - i =
        (b.ends (i + 1) (y :: rest)).getLast?.getD (i + 1) - (i + 1) + 1 := by omega
    refine ⟨by omega, by omega, ?_⟩
    rw [hdrop]
    exact hclean
  | case5 x y rest hpair hbreak ih =>
    obtain ⟨hle, hlt, hclean⟩ := ih (i + 1)
    have hlength : (x :: y :: rest).length = (y :: rest).length + 1 := List.length_cons
    rw [ends, if_neg hpair, if_neg hbreak]
    cases hlast : (b.ends (i + 1) (y :: rest)).getLast? with
    | none =>
      rw [hlast] at hle hlt hclean
      refine ⟨Nat.le_refl _, by simp, ?_⟩
      rw [Option.getD_none, Nat.sub_self, List.drop_zero] at hclean ⊢
      exact List.forall_mem_cons.mpr ⟨Bool.eq_false_iff.mpr hbreak, hclean⟩
    | some last =>
      rw [hlast] at hle hlt hclean
      rw [Option.getD_some] at hle hlt hclean ⊢
      have hdrop : last - i = last - (i + 1) + 1 := by omega
      refine ⟨by omega, by omega, ?_⟩
      rw [hdrop]
      exact hclean

/-! ### Positions -/

variable {units : α → Nat}

omit [DecidableEq α] in
/-- The units of a front of the line are those elements. -/
theorem elementsOf_append (hunits : ∀ x, 0 < units x) (front rest : List α) :
    elementsOf units (front.map units).sum (front ++ rest) = some front.length := by
  induction front with
  | nil => cases rest <;> rfl
  | cons x front ih =>
    have hx := hunits x
    obtain ⟨k, hk⟩ := Nat.exists_eq_add_of_le' (show 1 ≤ units x + (front.map units).sum by omega)
    have hle : units x ≤ k + 1 := by omega
    have hrest : k + 1 - units x = (front.map units).sum := by omega
    rw [List.map_cons, List.sum_cons, hk, List.cons_append, elementsOf, if_pos hle, hrest, ih]
    rfl

/-- **The position of an offset**: the number of the breaks before it, and the units of what stands
behind them, read back as the offset. -/
theorem offset_position (hunits : ∀ x, 0 < units x) (h : ¬b.Straddles before after) :
    b.offset units (before ++ after) (b.ends 0 before).length
      (((before.drop (b.lastStart before)).map units).sum) = some before.length := by
  obtain ⟨-, hle, hclean⟩ := b.clean_lastStart before 0
  rw [Nat.sub_zero] at hclean
  rw [Nat.zero_add] at hle
  have hstart : (0 :: b.ends 0 (before ++ after))[(b.ends 0 before).length]? =
      some (b.lastStart before) := by
    rw [b.ends_append h, ← List.cons_append, List.getElem?_append_left (by simp)]
    have hlast : (0 :: b.ends 0 before).getLast? = some (b.lastStart before) :=
      List.getLast?_cons
    rw [List.getLast?_eq_getElem?] at hlast
    exact hlast
  have hdrop : (before ++ after).drop (b.lastStart before) =
      before.drop (b.lastStart before) ++ after := List.drop_append_of_le_length hle
  have hcontent : b.content ((before ++ after).drop (b.lastStart before)) =
      before.drop (b.lastStart before) ++ b.content after := by
    rw [hdrop]
    exact List.takeWhile_append_of_pos fun x hx => by rw [hclean x hx]; rfl
  rw [offset, line?, hstart]
  show ((elementsOf units _ (b.content _)).map (b.lastStart before + ·)) = _
  rw [hcontent, elementsOf_append hunits, Option.map_some, List.length_drop]
  congr 1
  unfold lastStart
  omega

end Breaks

end Lnpl.Lib
