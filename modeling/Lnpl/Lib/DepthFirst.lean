import Mathlib.Algebra.Ring.Nat
import Mathlib.Data.List.Chain
import Mathlib.Data.List.TakeWhile
import Mathlib.Data.Set.Finite.Basic

/-!
# Depth-first search

The invariant of an iterative depth-first search over a graph that is given by lists of children,
of which only the known ones count.  A frame of the stack is a node with the children that are still
to be looked at, and a node is black once it is left.  `Searching` says that every frame has only
black children behind it, save the one above it on the stack, and that no walk from a black node
goes on for ever; the moves of a search keep it (`Searching.skip`, `Searching.descend`,
`Searching.finish`), and a child that is on the stack closes a walk (`Searching.closedWalk`).
-/

namespace Lnpl.Lib.DepthFirst

variable {α : Type}

/-! ### Closed walks -/

/-- A walk of one edge or more that ends where it starts. -/
def ClosedWalk (r : α → α → Prop) (walk : List α) : Prop :=
  ∃ n rest, walk = n :: (rest ++ [n]) ∧ walk.IsChain r

variable {r : α → α → Prop} {walk : List α}

theorem transGen_of_isChain {n m : α} {rest : List α} (h : (n :: (rest ++ [m])).IsChain r) :
    Relation.TransGen r n m := by
  induction rest generalizing n with
  | nil => exact .single (List.isChain_pair.mp h)
  | cons k rest ih =>
    obtain ⟨hstep, hrest⟩ := List.isChain_cons_cons.mp h
    exact .head hstep (ih hrest)

theorem exists_isChain_of_transGen {n m : α} (h : Relation.TransGen r n m) :
    ∃ rest, (n :: (rest ++ [m])).IsChain r := by
  induction h using Relation.TransGen.head_induction_on with
  | single hstep => exact ⟨[], List.isChain_pair.mpr hstep⟩
  | @head n k hstep _ ih =>
    obtain ⟨rest, hrest⟩ := ih
    exact ⟨k :: rest, List.isChain_cons_cons.mpr ⟨hstep, hrest⟩⟩

theorem exists_closedWalk {n : α} (h : Relation.TransGen r n n) : ∃ walk, ClosedWalk r walk := by
  obtain ⟨rest, hrest⟩ := exists_isChain_of_transGen h
  exact ⟨_, n, rest, rfl, hrest⟩

theorem ClosedWalk.transGen (h : ClosedWalk r walk) : ∃ n, Relation.TransGen r n n := by
  obtain ⟨n, rest, rfl, hchain⟩ := h
  exact ⟨n, transGen_of_isChain hchain⟩

/-- Where no walk goes on for ever, none comes back. -/
theorem not_transGen_of_acc {n : α} (h : Acc (fun m n => r n m) n) : ¬ Relation.TransGen r n n := by
  intro hloop
  have hswap : Relation.TransGen (fun m n => r n m) n n := Relation.transGen_swap.mpr hloop
  have hacc := (acc_transGen_iff.mpr h)
  induction hacc with
  | intro n _ ih => exact ih n hswap (h.inv_of_transGen hswap) hloop hswap

theorem ClosedWalk.mono {r' : α → α → Prop} (hr : ∀ n m, r n m → r' n m) (h : ClosedWalk r walk) :
    ClosedWalk r' walk := by
  obtain ⟨n, rest, rfl, hchain⟩ := h
  exact ⟨n, rest, rfl, hchain.imp hr⟩

/-- A closed walk is one from any of its nodes. -/
theorem ClosedWalk.rotate {front back : List α} {n m : α}
    (h : ClosedWalk r (front ++ m :: back ++ [n])) (hn : (front ++ m :: back).head? = some n) :
    ClosedWalk r (m :: (back ++ front ++ [m])) := by
  obtain ⟨k, rest, -, hchain⟩ := h
  refine ⟨m, back ++ front, rfl, ?_⟩
  cases front with
  | nil =>
    obtain rfl : m = n := Option.some.inj hn
    simpa using hchain
  | cons x front =>
    obtain rfl : x = n := Option.some.inj hn
    rw [List.append_assoc] at hchain
    obtain ⟨hfront, hback, -⟩ := List.isChain_append.mp hchain
    have hwhole : ((m :: back) ++ (x :: front ++ [m])).IsChain r := by
      have hsplit : (x :: front) ++ (m :: back ++ [x]) =
          (x :: front ++ [m]) ++ (back ++ [x]) := by simp
      rw [hsplit] at hchain
      have hfirst := (List.isChain_append.mp hchain).1
      have hsplit' : m :: back ++ [x] = (m :: back) ++ [x] := rfl
      rw [hsplit'] at hback
      obtain ⟨hback', -, hjoin⟩ := List.isChain_append.mp hback
      refine List.isChain_append.mpr ⟨hback', hfirst, ?_⟩
      intro a ha b hb
      exact hjoin a ha b hb
    simpa using hwhole

/-- A closed walk of nodes with successors, all of them known. -/
theorem ClosedWalk.known {known : α → Prop} (hknown : ∀ n m, r n m → known n)
    (h : ClosedWalk r walk) : ClosedWalk (fun n m => r n m ∧ known m) walk := by
  obtain ⟨n, rest, rfl, hchain⟩ := h
  refine ⟨n, rest, rfl, ?_⟩
  have hfirst : known n := by
    cases rest with
    | nil => exact hknown n n (List.isChain_pair.mp hchain)
    | cons m rest => exact hknown n m (List.isChain_cons_cons.mp hchain).1
  -- what a step goes to is where the next begins, or the end, where the first begins
  have hsteps : ∀ (steps : List α) (k : α), (k :: (steps ++ [n])).IsChain r →
      (k :: (steps ++ [n])).IsChain fun n m => r n m ∧ known m := by
    intro steps
    induction steps with
    | nil =>
      intro k hk
      exact List.isChain_pair.mpr ⟨List.isChain_pair.mp hk, hfirst⟩
    | cons m steps ih =>
      intro k hk
      obtain ⟨hstep, hrest⟩ := List.isChain_cons_cons.mp hk
      have hm : known m := by
        cases steps with
        | nil => exact hknown m n (List.isChain_pair.mp hrest)
        | cons l steps => exact hknown m l (List.isChain_cons_cons.mp hrest).1
      exact List.isChain_cons_cons.mpr ⟨⟨hstep, hm⟩, ih m hrest⟩
  exact hsteps rest n hchain

/-! ### The invariant -/

variable (children : α → List α) (known : α → Prop)

def Edge (n m : α) : Prop := m ∈ children n ∧ known m

/-- The children behind a frame are black, save the node above it. -/
def Frames (black : α → Prop) : Option α → List (α × List α) → Prop
  | _, [] => True
  | above, (n, kids) :: stack =>
    (∃ seen, children n = seen ++ (above.toList ++ kids) ∧ ∀ m ∈ seen, known m → black m) ∧
      Frames black (some n) stack

structure Searching (black : α → Prop) (stack : List (α × List α)) : Prop where
  frames : Frames children known black none stack
  nodup : (stack.map Prod.fst).Nodup
  isKnown : ∀ n ∈ stack.map Prod.fst, known n
  apart : ∀ n ∈ stack.map Prod.fst, ¬ black n
  finished : ∀ n, black n → Acc (fun m n => Edge children known n m) n

variable {children known} {black : α → Prop} {stack : List (α × List α)} {n m : α} {kids : List α}

theorem Frames.mono {black' : α → Prop} (hblack : ∀ n, black n → black' n) {above : Option α}
    (h : Frames children known black above stack) :
    Frames children known black' above stack := by
  induction stack generalizing above with
  | nil => exact h
  | cons frame stack ih =>
    obtain ⟨⟨seen, hchildren, hseen⟩, hbelow⟩ := h
    exact ⟨⟨seen, hchildren, fun m hm hknown => hblack m (hseen m hm hknown)⟩, ih hbelow⟩

/-- A child that is black or not known is left behind. -/
theorem Frames.skip (h : Frames children known black none ((n, m :: kids) :: stack))
    (hm : known m → black m) : Frames children known black none ((n, kids) :: stack) := by
  obtain ⟨⟨seen, hchildren, hseen⟩, hbelow⟩ := h
  refine ⟨⟨seen ++ [m], by rw [hchildren]; simp, ?_⟩, hbelow⟩
  intro k hk hknown
  rcases List.mem_append.mp hk with hk | hk
  · exact hseen k hk hknown
  · rw [List.mem_singleton.mp hk] at hknown ⊢
    exact hm hknown

/-- A child goes on top, before its children. -/
theorem Frames.descend (h : Frames children known black none ((n, m :: kids) :: stack)) :
    Frames children known black none ((m, children m) :: (n, kids) :: stack) := by
  obtain ⟨⟨seen, hchildren, hseen⟩, hbelow⟩ := h
  exact ⟨⟨[], rfl, nofun⟩, ⟨seen, hchildren, hseen⟩, hbelow⟩

/-- A node that is black from then on is left. -/
theorem Frames.finish (h : Frames children known black none ((n, kids) :: stack))
    (hn : known n → black n) : Frames children known black none stack := by
  have hbelow := h.2
  cases stack with
  | nil => trivial
  | cons frame stack =>
    obtain ⟨⟨seen, hchildren, hseen⟩, hrest⟩ := hbelow
    refine ⟨⟨seen ++ [n], by rw [hchildren]; simp, ?_⟩, hrest⟩
    intro k hk hknown
    rcases List.mem_append.mp hk with hk | hk
    · exact hseen k hk hknown
    · rw [List.mem_singleton.mp hk] at hknown ⊢
      exact hn hknown

/-- A search starts with one node, before its children. -/
theorem Searching.start (hfinished : ∀ n, black n → Acc (fun m n => Edge children known n m) n)
    (hknown : known n) (hblack : ¬ black n) :
    Searching children known black [(n, children n)] where
  frames := ⟨⟨[], rfl, nofun⟩, trivial⟩
  nodup := List.nodup_singleton n
  isKnown _ hk := List.mem_singleton.mp hk ▸ hknown
  apart _ hk := List.mem_singleton.mp hk ▸ hblack
  finished := hfinished

/-- A child that is black or not known is left behind. -/
theorem Searching.skip (h : Searching children known black ((n, m :: kids) :: stack))
    (hm : known m → black m) : Searching children known black ((n, kids) :: stack) where
  frames := h.frames.skip hm
  nodup := h.nodup
  isKnown := h.isKnown
  apart := h.apart
  finished := h.finished

/-- A known child that is neither black nor on the stack goes on top of it. -/
theorem Searching.descend (h : Searching children known black ((n, m :: kids) :: stack))
    (hknown : known m) (hblack : ¬ black m) (hstack : m ∉ n :: stack.map Prod.fst) :
    Searching children known black ((m, children m) :: (n, kids) :: stack) where
  frames := h.frames.descend
  nodup := List.nodup_cons.mpr ⟨hstack, h.nodup⟩
  isKnown := List.forall_mem_cons.mpr ⟨hknown, h.isKnown⟩
  apart := List.forall_mem_cons.mpr ⟨hblack, h.apart⟩
  finished := h.finished

/-- A node without further children is left, and black from then on. -/
theorem Searching.finish (h : Searching children known black ((n, []) :: stack)) :
    Searching children known (fun k => k = n ∨ black k) stack where
  frames := (h.frames.mono fun k hk => .inr hk).finish fun _ => .inl rfl
  nodup := (List.nodup_cons.mp h.nodup).2
  isKnown k hk := h.isKnown k (List.mem_cons_of_mem n hk)
  apart k hk := by
    rintro (rfl | hblack)
    · exact (List.nodup_cons.mp h.nodup).1 hk
    · exact h.apart k (List.mem_cons_of_mem n hk) hblack
  finished k hk := by
    rcases hk with rfl | hblack
    · obtain ⟨⟨seen, hchildren, hseen⟩, -⟩ := h.frames
      refine Acc.intro k fun m hm => h.finished m (hseen m ?_ hm.2)
      have hmem := hm.1
      rw [hchildren] at hmem
      simpa using hmem
    · exact h.finished k hblack

/-! ### A search that goes on -/

/-- The stack of a search that may have found closed walks and gone on: as long as it has not, it is
that of a search without. -/
structure Visiting (children : α → List α) (known black : α → Prop) (found : Prop)
    (stack : List (α × List α)) : Prop where
  frames : Frames children known (fun _ => True) none stack
  nodup : (stack.map Prod.fst).Nodup
  isKnown : ∀ n ∈ stack.map Prod.fst, known n
  apart : ∀ n ∈ stack.map Prod.fst, ¬ black n
  quiet : ¬ found → Searching children known black stack

variable {found : Prop}

theorem Visiting.start
    (hfinished : ¬ found → ∀ n, black n → Acc (fun m n => Edge children known n m) n)
    (hknown : known n) (hblack : ¬ black n) :
    Visiting children known black found [(n, children n)] where
  frames := ⟨⟨[], rfl, nofun⟩, trivial⟩
  nodup := List.nodup_singleton n
  isKnown _ hk := List.mem_singleton.mp hk ▸ hknown
  apart _ hk := List.mem_singleton.mp hk ▸ hblack
  quiet hfound := .start (hfinished hfound) hknown hblack

section

variable (h : Visiting children known black found ((n, m :: kids) :: stack))
include h

theorem Visiting.skip (hm : known m → black m) :
    Visiting children known black found ((n, kids) :: stack) where
  frames := h.frames.skip fun _ => trivial
  nodup := h.nodup
  isKnown := h.isKnown
  apart := h.apart
  quiet hfound := (h.quiet hfound).skip hm

/-- A child on the stack closes a walk, and is left behind. -/
theorem Visiting.report :
    Visiting children known black True ((n, kids) :: stack) where
  frames := h.frames.skip fun _ => trivial
  nodup := h.nodup
  isKnown := h.isKnown
  apart := h.apart
  quiet hfound := absurd trivial hfound

theorem Visiting.descend (hknown : known m) (hblack : ¬ black m)
    (hstack : m ∉ n :: stack.map Prod.fst) :
    Visiting children known black found ((m, children m) :: (n, kids) :: stack) where
  frames := h.frames.descend
  nodup := List.nodup_cons.mpr ⟨hstack, h.nodup⟩
  isKnown := List.forall_mem_cons.mpr ⟨hknown, h.isKnown⟩
  apart := List.forall_mem_cons.mpr ⟨hblack, h.apart⟩
  quiet hfound := (h.quiet hfound).descend hknown hblack hstack

end

theorem Visiting.finish (h : Visiting children known black found ((n, []) :: stack)) :
    Visiting children known (fun k => k = n ∨ black k) found stack where
  frames := h.frames.finish fun _ => trivial
  nodup := (List.nodup_cons.mp h.nodup).2
  isKnown k hk := h.isKnown k (List.mem_cons_of_mem n hk)
  apart k hk := by
    rintro (rfl | hblack)
    · exact (List.nodup_cons.mp h.nodup).1 hk
    · exact h.apart k (List.mem_cons_of_mem n hk) hblack
  quiet hfound := (h.quiet hfound).finish

/-! ### What a search finds -/

/-- The stack, from its bottom up, is a walk. -/
theorem Frames.isChain {above : Option α} (h : Frames children known black above stack)
    (hknown : ∀ n ∈ stack.map Prod.fst, known n) :
    (stack.map Prod.fst).IsChain (fun m n => Edge children known n m) := by
  induction stack generalizing above with
  | nil => exact List.isChain_nil
  | cons frame stack ih =>
    have hbelow := ih h.2 fun k hk => hknown k (List.mem_cons_of_mem _ hk)
    cases stack with
    | nil => exact List.isChain_singleton _
    | cons frame' stack =>
      obtain ⟨seen, hchildren, -⟩ := h.2.1
      have hedge : Edge children known frame'.1 frame.1 :=
        ⟨by rw [hchildren]; simp, hknown frame.1 List.mem_cons_self⟩
      exact List.isChain_cons_cons.mpr ⟨hedge, hbelow⟩

/-- **A child on the stack closes a walk**, from it up the stack and back. -/
theorem Frames.closedWalk [DecidableEq α]
    (h : Frames children known black none ((n, m :: kids) :: stack))
    (hknown : ∀ k ∈ n :: stack.map Prod.fst, known k) (hstack : m ∈ n :: stack.map Prod.fst) :
    ClosedWalk (Edge children known)
      ((n :: stack.map Prod.fst).reverse.dropWhile (· ≠ m) ++ [m]) := by
  have hchain := List.isChain_reverse.mpr (h.isChain hknown)
  rw [List.map_cons] at hchain
  have hmem : m ∈ (n :: stack.map Prod.fst).reverse := List.mem_reverse.mpr hstack
  set path := (n :: stack.map Prod.fst).reverse with hpath
  have hsuffix := List.dropWhile_suffix (l := path) (p := fun k => decide (k ≠ m))
  have hne : path.dropWhile (· ≠ m) ≠ [] := by
    intro hnil
    have hall := List.dropWhile_eq_nil_iff.mp hnil m hmem
    exact (of_decide_eq_true hall) rfl
  have hhead : (path.dropWhile (· ≠ m)).head hne = m := by
    have hnot := List.head_dropWhile_not (fun k => decide (k ≠ m)) hne
    simpa only [decide_not, Bool.not_eq_false', decide_eq_true_eq] using hnot
  have hlast : (path.dropWhile (· ≠ m)).getLast? = some n := by
    obtain ⟨front, hfront⟩ := hsuffix
    have hpathLast : path.getLast? = some n := by rw [hpath]; simp
    rw [← hfront, List.getLast?_append_of_ne_nil _ hne] at hpathLast
    exact hpathLast
  have hedge : Edge children known n m := by
    obtain ⟨⟨seen, hchildren, -⟩, -⟩ := h
    refine ⟨by rw [hchildren]; simp, ?_⟩
    exact hknown m hstack
  obtain ⟨k, rest, hdrop⟩ := List.exists_cons_of_ne_nil hne
  have hk : k = m := by
    simp only [hdrop] at hhead
    exact hhead
  refine ⟨m, rest, by rw [hdrop, hk, List.cons_append], ?_⟩
  refine List.isChain_append.mpr ⟨hchain.suffix hsuffix, List.isChain_singleton m, ?_⟩
  intro x hx y hy
  rw [hlast] at hx
  cases hx
  cases hy
  exact hedge

theorem Searching.closedWalk [DecidableEq α]
    (h : Searching children known black ((n, m :: kids) :: stack))
    (hstack : m ∈ n :: stack.map Prod.fst) :
    ClosedWalk (Edge children known)
      ((n :: stack.map Prod.fst).reverse.dropWhile (· ≠ m) ++ [m]) :=
  h.frames.closedWalk h.isKnown hstack

theorem Visiting.closedWalk [DecidableEq α]
    (h : Visiting children known black found ((n, m :: kids) :: stack))
    (hstack : m ∈ n :: stack.map Prod.fst) :
    ClosedWalk (Edge children known)
      ((n :: stack.map Prod.fst).reverse.dropWhile (· ≠ m) ++ [m]) :=
  h.frames.closedWalk h.isKnown hstack

theorem ClosedWalk.mem_known (h : ClosedWalk (Edge children known) walk) (hn : n ∈ walk) :
    known n := by
  obtain ⟨k, rest, rfl, hchain⟩ := h
  have htail : ∀ l ∈ rest ++ [k], known l := by
    clear hn
    generalize rest ++ [k] = tail at hchain
    induction tail generalizing k with
    | nil => exact fun l hl => absurd hl List.not_mem_nil
    | cons l tail ih =>
      obtain ⟨hedge, hrest⟩ := List.isChain_cons_cons.mp hchain
      intro l' hl'
      rcases List.mem_cons.mp hl' with rfl | hl'
      · exact hedge.2
      · exact ih l hrest l' hl'
  rcases List.mem_cons.mp hn with rfl | hn
  · exact htail n (List.mem_append_right rest (List.mem_singleton_self n))
  · exact htail n hn

/-- **When every node is black, no walk is closed.** -/
theorem not_closedWalk (hfinished : ∀ n, known n → Acc (fun m n => Edge children known n m) n)
    (walk : List α) : ¬ ClosedWalk (Edge children known) walk := by
  intro h
  obtain ⟨n, hloop⟩ := h.transGen
  obtain ⟨k, -, hlast⟩ := Relation.TransGen.tail'_iff.mp hloop
  exact not_transGen_of_acc (hfinished n hlast.2) hloop

/-! ### How long a search takes -/

/-- The turns that the white ones of some nodes will take: one for each child, and one more. -/
def whiteTurns (children : α → List α) (white : α → Bool) : List α → ℕ
  | [] => 0
  | n :: nodes =>
    (if white n then (children n).length + 1 else 0) + whiteTurns children white nodes

/-- The turns that the frames of a stack will take. -/
def stackTurns : List (α × List α) → ℕ
  | [] => 0
  | (_, kids) :: stack => kids.length + 1 + stackTurns stack

theorem whiteTurns_congr {white white' : α → Bool} {nodes : List α}
    (h : ∀ n ∈ nodes, white n = white' n) :
    whiteTurns children white nodes = whiteTurns children white' nodes := by
  induction nodes with
  | nil => rfl
  | cons n nodes ih =>
    rw [whiteTurns, whiteTurns, ih fun k hk => h k (List.mem_cons_of_mem n hk),
      h n List.mem_cons_self]

theorem whiteTurns_le (white : α → Bool) (nodes : List α) :
    whiteTurns children white nodes ≤ (nodes.map fun n => (children n).length + 1).sum := by
  induction nodes with
  | nil => exact Nat.le_refl 0
  | cons n nodes ih =>
    rw [whiteTurns, List.map_cons, List.sum_cons]
    split <;> omega

/-- A node that is entered takes its turns with it. -/
theorem whiteTurns_enter [DecidableEq α] {white : α → Bool} {nodes : List α} (hnodup : nodes.Nodup)
    (hn : n ∈ nodes) (hwhite : white n = true) :
    whiteTurns children (fun k => !decide (k = n) && white k) nodes + ((children n).length + 1) =
      whiteTurns children white nodes := by
  induction nodes with
  | nil => cases hn
  | cons k nodes ih =>
    obtain ⟨hk, hnodes⟩ := List.nodup_cons.mp hnodup
    rw [whiteTurns, whiteTurns]
    by_cases heq : k = n
    · subst heq
      have hcongr : whiteTurns children (fun l => !decide (l = k) && white l) nodes =
          whiteTurns children white nodes := by
        apply whiteTurns_congr
        intro l hl
        have hne : l ≠ k := fun h => hk (h ▸ hl)
        simp [hne]
      rw [hcongr, if_pos hwhite]
      simp
      omega
    · have hrest : n ∈ nodes := (List.mem_cons.mp hn).resolve_left (Ne.symm heq)
      have hturns := ih hnodes hrest
      simp only [heq, decide_false, Bool.not_false, Bool.true_and]
      omega

/-! ### Colours -/

section

variable [DecidableEq α] {κ : Type} {colour : α → κ} {c d : κ} {ks : List α}

/-- Painting a node adds it to those of the colour. -/
theorem painted_eq (colour : α → κ) (n : α) (c : κ) :
    (fun k => (if k = n then c else colour k) = c) = fun k => k = n ∨ colour k = c := by
  funext k
  by_cases hk : k = n <;> simp [hk]

/-- Painting a node leaves alone those of a colour that it neither had nor gets. -/
theorem painted_eq_of_ne (hc : c ≠ d) (hn : colour n ≠ d) :
    (fun k => (if k = n then c else colour k) = d) = fun k => colour k = d := by
  funext k
  by_cases hk : k = n <;> simp [hk, hc, hn]

theorem painted_iff_mem_cons (h : ∀ k, colour k = c ↔ k ∈ ks) (n k : α) :
    (if k = n then c else colour k) = c ↔ k ∈ n :: ks := by
  by_cases hk : k = n <;> simp [hk, h]

theorem painted_iff_mem (hc : c ≠ d) (h : ∀ k, colour k = d ↔ k ∈ n :: ks) (hn : n ∉ ks) (k : α) :
    (if k = n then c else colour k) = d ↔ k ∈ ks := by
  by_cases hk : k = n <;> simp [hk, h, hc, hn]

variable [DecidableEq κ] {nodes : List α}

theorem whiteTurns_paint (hc : c ≠ d) (hn : colour n ≠ d) :
    whiteTurns children (fun k => decide ((if k = n then c else colour k) = d)) nodes =
      whiteTurns children (fun k => decide (colour k = d)) nodes :=
  whiteTurns_congr fun k _ => decide_eq_decide.mpr (congrFun (painted_eq_of_ne hc hn) k).to_iff

theorem whiteTurns_paint_enter (hc : c ≠ d) (hnodup : nodes.Nodup) (hmem : n ∈ nodes)
    (hn : colour n = d) :
    whiteTurns children (fun k => decide ((if k = n then c else colour k) = d)) nodes +
        ((children n).length + 1) =
      whiteTurns children (fun k => decide (colour k = d)) nodes := by
  rw [← @whiteTurns_enter _ _ _ _ (fun k => decide (colour k = d)) _ hnodup hmem (decide_eq_true hn)]
  congr 1
  refine whiteTurns_congr fun k _ => ?_
  by_cases hk : k = n <;> simp [hk, hc]

end

end Lnpl.Lib.DepthFirst

/-!
## Forests

Nodes with lists of children, all of them nodes.  A path is a row of positions in such lists, and it
starts at a node that is nobody's child.  Every node is reached by exactly one path iff every child
stands at one position in one list, and no walk along the children is closed (`reached_iff`).
-/

namespace Lnpl.Lib.Forest

open Lnpl.Lib.DepthFirst

variable {α : Type} (nodes : List α) (children : α → List α)

/-! ### Paths -/

/-- Where a path leads. -/
def follow (n : α) (path : List ℕ) : Option α := path.foldlM (fun n i => (children n)[i]?) n

/-- A node that is nobody's child. -/
def Unowned (n : α) : Prop := n ∈ nodes ∧ ∀ m ∈ nodes, n ∉ children m

/-- One path leads to the node, from one unowned node. -/
def Reached (n : α) : Prop :=
  ∃! p : α × List ℕ, Unowned nodes children p.1 ∧ follow children p.1 p.2 = some n

/-- A child stands at one position in one list. -/
def OneOwner : Prop :=
  ∀ n ∈ nodes, ∀ n' ∈ nodes, ∀ (i j : ℕ) (m : α),
    (children n)[i]? = some m → (children n')[j]? = some m → n = n' ∧ i = j

variable {nodes children}

theorem follow_append (n : α) (path path' : List ℕ) :
    follow children n (path ++ path') =
      (follow children n path).bind fun m => follow children m path' :=
  List.foldlM_append

theorem follow_concat (n : α) (path : List ℕ) (i : ℕ) :
    follow children n (path ++ [i]) =
      (follow children n path).bind fun m => (children m)[i]? := by
  rw [follow_append]
  cases follow children n path with
  | none => rfl
  | some m =>
    rw [Option.bind_some, Option.bind_some, follow, List.foldlM_cons]
    exact Option.bind_fun_some _

variable {path : List ℕ}

theorem mem_of_follow (hclosed : ∀ n ∈ nodes, ∀ m ∈ children n, m ∈ nodes) {n m : α}
    (hn : n ∈ nodes) (h : follow children n path = some m) : m ∈ nodes := by
  induction path using List.reverseRecOn generalizing m with
  | nil =>
    cases h
    exact hn
  | append_singleton path i ih =>
    rw [follow_concat] at h
    obtain ⟨k, hk, hm⟩ := Option.bind_eq_some_iff.mp h
    exact hclosed k (ih hk) m (List.mem_of_getElem? hm)

/-- A walk is followed by a path. -/
theorem exists_follow_of_transGen {n m : α}
    (h : Relation.TransGen (Edge children (· ∈ nodes)) n m) :
    ∃ path, path ≠ [] ∧ follow children n path = some m := by
  have hedge {k l : α} (hkl : Edge children (· ∈ nodes) k l) : ∃ i, (children k)[i]? = some l :=
    List.mem_iff_getElem?.mp hkl.1
  induction h with
  | single hstep =>
    obtain ⟨i, hi⟩ := hedge hstep
    refine ⟨[i], List.cons_ne_nil i [], ?_⟩
    rw [← List.nil_append [i], follow_concat]
    exact hi
  | tail _ hstep ih =>
    obtain ⟨path, -, hpath⟩ := ih
    obtain ⟨i, hi⟩ := hedge hstep
    refine ⟨path ++ [i], List.append_ne_nil_of_right_ne_nil path (List.cons_ne_nil i []), ?_⟩
    rw [follow_concat, hpath]
    exact hi

/-! ### Owners -/

/-- An unowned node is not where a path of one step or more leads. -/
theorem Unowned.path_eq_nil (hclosed : ∀ n ∈ nodes, ∀ m ∈ children n, m ∈ nodes) {root n : α}
    (hroot : Unowned nodes children root) (hn : Unowned nodes children n)
    (h : follow children root path = some n) : path = [] := by
  induction path using List.reverseRecOn with
  | nil => rfl
  | append_singleton path i _ =>
    rw [follow_concat] at h
    obtain ⟨k, hk, hm⟩ := Option.bind_eq_some_iff.mp h
    exact absurd (List.mem_of_getElem? hm) (hn.2 k (mem_of_follow hclosed hroot.1 hk))

/-- Where every child has one owner, one path leads to a node. -/
theorem OneOwner.path_unique (howner : OneOwner nodes children)
    (hclosed : ∀ n ∈ nodes, ∀ m ∈ children n, m ∈ nodes) {root root' n : α} {path' : List ℕ}
    (hroot : Unowned nodes children root) (hroot' : Unowned nodes children root')
    (h : follow children root path = some n) (h' : follow children root' path' = some n) :
    root = root' ∧ path = path' := by
  induction path using List.reverseRecOn generalizing n path' with
  | nil =>
    cases h
    have hnil := hroot'.path_eq_nil hclosed hroot h'
    subst hnil
    cases h'
    exact ⟨rfl, rfl⟩
  | append_singleton path i ih =>
    induction path' using List.reverseRecOn with
    | nil =>
      cases h'
      exact absurd (hroot.path_eq_nil hclosed hroot' h) (by simp)
    | append_singleton path' j _ =>
      rw [follow_concat] at h h'
      obtain ⟨k, hk, hi⟩ := Option.bind_eq_some_iff.mp h
      obtain ⟨k', hk', hj⟩ := Option.bind_eq_some_iff.mp h'
      obtain ⟨rfl, rfl⟩ := howner k (mem_of_follow hclosed hroot.1 hk) k'
        (mem_of_follow hclosed hroot'.1 hk') i j n hi hj
      obtain ⟨hroots, hpaths⟩ := ih hk hk'
      exact ⟨hroots, by rw [hpaths]⟩

/-- The lists of children, one behind the other, name nothing twice iff every child has one
owner. -/
theorem nodup_flatMap_iff (hnodes : nodes.Nodup) :
    (nodes.flatMap children).Nodup ↔ OneOwner nodes children := by
  rw [List.nodup_flatMap]
  constructor
  · rintro ⟨hnodup, hdisjoint⟩ n hn n' hn' i j m hi hj
    have hsame : n = n' := by
      by_contra hne
      have : Std.Symm (Function.onFun List.Disjoint children) := ⟨fun _ _ h => h.symm⟩
      exact hdisjoint.forall hn hn' hne (List.mem_of_getElem? hi) (List.mem_of_getElem? hj)
    subst hsame
    obtain ⟨hlt, -⟩ := List.getElem?_eq_some_iff.mp hi
    exact ⟨rfl, List.getElem?_inj hlt (hnodup n hn) |>.mp (hi.trans hj.symm)⟩
  · intro howner
    constructor
    · intro n hn
      rw [List.nodup_iff_getElem?_ne_getElem?]
      intro i j hij hj heq
      have hm : (children n)[j]? = some (children n)[j] := List.getElem?_eq_getElem hj
      have hsame := (howner n hn n hn i j _ (heq.trans hm) hm).2
      omega
    · refine hnodes.pairwise_of_forall_ne fun n hn n' hn' hne m hm hm' => ?_
      obtain ⟨i, hi⟩ := List.mem_iff_getElem?.mp hm
      obtain ⟨j, hj⟩ := List.mem_iff_getElem?.mp hm'
      exact hne (howner n hn n' hn' i j m hi hj).1

theorem unowned_iff {n : α} (hn : n ∈ nodes) :
    Unowned nodes children n ↔ n ∉ nodes.flatMap children := by
  rw [Unowned, List.mem_flatMap]
  constructor
  · rintro ⟨-, hnone⟩ ⟨m, hm, hmem⟩
    exact hnone m hm hmem
  · intro hnone
    exact ⟨hn, fun m hm hmem => hnone ⟨m, hm, hmem⟩⟩

/-- Where no walk is closed, some path leads to every node. -/
theorem exists_path
    (hacyclic : ∀ walk, ¬ ClosedWalk (Edge children (· ∈ nodes)) walk) {n : α} (hn : n ∈ nodes) :
    ∃ root path, Unowned nodes children root ∧ follow children root path = some n := by
  let above (a b : {n // n ∈ nodes}) : Prop :=
    Relation.TransGen (Edge children (· ∈ nodes)) a.1 b.1
  have : IsTrans {n // n ∈ nodes} above := ⟨fun _ _ _ => Relation.TransGen.trans⟩
  have : Std.Irrefl above := by
    refine ⟨fun a hloop => ?_⟩
    obtain ⟨walk, hwalk⟩ := exists_closedWalk hloop
    exact hacyclic walk hwalk
  have : Finite {n // n ∈ nodes} := List.finite_toSet nodes
  have hwf : WellFounded above := Finite.wellFounded_of_trans_of_irrefl above
  suffices h : ∀ a : {n // n ∈ nodes}, ∃ root path, Unowned nodes children root ∧
      follow children root path = some a.1 from h ⟨n, hn⟩
  intro a
  induction a using hwf.induction with
  | _ a ih =>
  by_cases hunowned : Unowned nodes children a.1
  · exact ⟨a.1, [], hunowned, rfl⟩
  · have howned : ∃ m ∈ nodes, a.1 ∈ children m := by
      by_contra hnone
      exact hunowned ⟨a.2, fun m hm hmem => hnone ⟨m, hm, hmem⟩⟩
    obtain ⟨m, hm, hmem⟩ := howned
    obtain ⟨root, path, hroot, hpath⟩ := ih ⟨m, hm⟩ (.single ⟨hmem, a.2⟩)
    obtain ⟨i, hi⟩ := List.mem_iff_getElem?.mp hmem
    refine ⟨root, path ++ [i], hroot, ?_⟩
    rw [follow_concat, hpath]
    exact hi

/-- **Forests.** Every node is reached by one path from one unowned node iff every child has one
owner and no walk is closed. -/
theorem reached_iff (hclosed : ∀ n ∈ nodes, ∀ m ∈ children n, m ∈ nodes) :
    (∀ n ∈ nodes, Reached nodes children n) ↔
      OneOwner nodes children ∧ ∀ walk, ¬ ClosedWalk (Edge children (· ∈ nodes)) walk := by
  constructor
  · intro hreached
    constructor
    · intro n hn n' hn' i j m hi hj
      obtain ⟨p, ⟨hroot, hpath⟩, -⟩ := hreached n hn
      obtain ⟨p', ⟨hroot', hpath'⟩, -⟩ := hreached n' hn'
      have hm : (p.1, p.2 ++ [i]) = (p'.1, p'.2 ++ [j]) :=
        (hreached m (hclosed n hn m (List.mem_of_getElem? hi))).unique
          ⟨hroot, by rw [follow_concat, hpath]; exact hi⟩
          ⟨hroot', by rw [follow_concat, hpath']; exact hj⟩
      obtain ⟨hroots, hpaths⟩ := Prod.mk.inj hm
      obtain ⟨hfronts, hlasts⟩ := List.append_inj' hpaths rfl
      rw [hroots, hfronts, hpath'] at hpath
      exact ⟨(Option.some.inj hpath).symm, (List.cons.inj hlasts).1⟩
    · intro walk hwalk
      obtain ⟨n, hloop⟩ := hwalk.transGen
      obtain ⟨k, -, hlast⟩ := Relation.TransGen.tail'_iff.mp hloop
      obtain ⟨p, ⟨hroot, hpath⟩, hunique⟩ := hreached n hlast.2
      obtain ⟨round, hround, hfollow⟩ := exists_follow_of_transGen hloop
      -- the path, and the path with the round behind it, both lead to the node
      have hlonger := hunique (p.1, p.2 ++ round)
        ⟨hroot, by rw [follow_append, hpath]; exact hfollow⟩
      have hlists := (Prod.ext_iff.mp hlonger).2
      exact hround (List.append_right_eq_self.mp hlists)
  · rintro ⟨howner, hacyclic⟩ n hn
    obtain ⟨root, path, hroot, hpath⟩ := exists_path hacyclic hn
    refine ⟨(root, path), ⟨hroot, hpath⟩, ?_⟩
    rintro ⟨root', path'⟩ ⟨hroot', hpath'⟩
    obtain ⟨hroots, hpaths⟩ := howner.path_unique hclosed hroot' hroot hpath' hpath
    exact Prod.ext hroots hpaths

end Lnpl.Lib.Forest
