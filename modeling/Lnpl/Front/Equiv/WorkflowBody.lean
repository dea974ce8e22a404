import Lnpl.Front.WorkflowBody
import Lnpl.Lib.Results

/-!
# A workflow body conserves its lines

`Built back b` relates a body to the lines that it was built from: the entries of its items and of
what still waits for an item are the entries that these lines are to have, and every reference is to
the end of the item list (`Body.Placed`).  Each line keeps it (`built_appendWorkflowItem`).
-/

namespace Lnpl.Front

open Lib (bind_eq_ok pure_eq_ok)

/-! ### The words of control lines -/

variable {w : String} {blk : Block} {item : Item}

variable {kind : BlockKind} {mode : GuardMode} {slot : Slot} {front : List Item} {last : Item}

theorem BlockKind.word_of_ofWord? (h : BlockKind.ofWord? w = some kind) : kind.word = w := by
  simpa using List.find?_some h

theorem GuardMode.word_of_ofWord? (h : GuardMode.ofWord? w = some mode) : mode.word = w := by
  simpa using List.find?_some h

theorem not_mem_blockWords (h : BlockKind.ofWord? w = none) : w ∉ blockWords := by
  intro hw
  simp only [blockWords, List.mem_cons, List.not_mem_nil, or_false] at hw
  rcases hw with rfl | rfl <;> exact absurd h (by decide)

theorem not_mem_guardWords (h : GuardMode.ofWord? w = none) : w ∉ guardWords := by
  intro hw
  simp only [guardWords, List.mem_cons, List.not_mem_nil, or_false] at hw
  rcases hw with rfl | rfl | rfl <;> exact absurd h (by decide)

theorem BlockKind.word_mem (kind : BlockKind) : kind.word ∈ blockWords := by
  cases kind <;> decide

theorem GuardMode.word_mem (mode : GuardMode) : mode.word ∈ guardWords := by
  cases mode <;> decide

/-! ### What the lines say -/

theorem describedAfter_append (back lines : List Line) (line : Line) :
    describedAfter back (lines ++ [line]) =
      describedAfter back lines ++ [entryOf (lines.reverse ++ back) line] := by
  induction lines generalizing back with
  | nil => rfl
  | cons l lines ih =>
    simp only [List.cons_append, describedAfter, ih, List.reverse_cons, List.append_assoc,
      List.nil_append]

/-- One more line has one more entry. -/
theorem described_reverse_cons (back : List Line) (line : Line) :
    described (line :: back).reverse = described back.reverse ++ [entryOf back line] := by
  rw [List.reverse_cons, described, describedAfter_append, List.reverse_reverse, List.append_nil]
  rfl

/-- A line that neither opens nor closes a block leaves the open one open. -/
theorem openHeader_cons_of_not_mem {back : List Line} {line : Line} (h : line.head ∉ controlWords) :
    openHeader (line :: back) = openHeader back := by
  simp [openHeader, h]

/-- The header of a block opens it. -/
theorem openHeader_cons_of_block {back : List Line} {line : Line} (h : line.head ∈ blockWords) :
    openHeader (line :: back) = some line := by
  have hcontrol : line.head ∈ controlWords := by simp [controlWords, h]
  simp [openHeader, hcontrol, h]

/-- Any other control line closes the open block. -/
theorem openHeader_cons_of_close {back : List Line} {line : Line} (hc : line.head ∈ controlWords)
    (hb : line.head ∉ blockWords) : openHeader (line :: back) = none := by
  simp [openHeader, hc, hb]

/-- An `or` leaves the guard waiting, if one is. -/
theorem guardWaits_cons_or {back : List Line} {line : Line} (h : line.head = "or") :
    guardWaits (line :: back) = guardWaits back := by
  simp [guardWaits, h]

/-- After any other line a guard waits if the line is its header. -/
theorem guardWaits_cons {back : List Line} {line : Line} (h : line.head ≠ "or") :
    guardWaits (line :: back) = decide (line.head ∈ guardWords) := by
  simp [guardWaits, h]

/-! ### References -/

/-- The last block of an item: nothing of the item comes after it in the source. -/
inductive Item.EndsIn (blk : Block) : Slot → Item → Prop
  | top : EndsIn blk .top (.block blk)
  | guarded (g : Guard) : EndsIn blk .guarded (.guard g (.block blk) none)
  | otherwise (g : Guard) (item : Item) (n : Nat) :
    EndsIn blk .otherwise (.guard g item (some (n, .block blk)))

theorem Item.EndsIn.blockAt (h : item.EndsIn blk slot) : item.blockAt slot = some blk := by
  cases h <;> rfl

/-- A change of the last block of an item changes the end of its entries. -/
theorem Item.EndsIn.modifyBlock (h : item.EndsIn blk slot) (f : Block → Block) :
    (item.modifyBlock f slot).EndsIn (f blk) slot ∧
      (item.Shallow → (item.modifyBlock f slot).Shallow) ∧
      ∃ front, item.entries = front ++ blk.entries ∧
        (item.modifyBlock f slot).entries = front ++ (f blk).entries := by
  cases h with
  | top => exact ⟨.top, fun h => h, [], rfl, rfl⟩
  | guarded g =>
    exact ⟨.guarded g, fun _ => ⟨.block _, by simp⟩, g.entries, by simp [Item.entries], by
      simp [Item.modifyBlock, Item.entries]⟩
  | otherwise g other n =>
    refine ⟨.otherwise g other n, fun h => ⟨h.1, ?_⟩, g.entries ++ other.entries ++ [.otherwise n],
      ?_, ?_⟩
    · simpa using Item.Flat.block _
    · simp [Item.entries]
    · simp [Item.modifyBlock, Item.entries]

/-- A guard item stays one. -/
theorem Item.modifyBlock_guard (f : Block → Block) (slot : Slot) (g : Guard) (item : Item)
    (other : Option (Nat × Item)) : ∃ item' other',
      (Item.guard g item other).modifyBlock f slot = .guard g item' other' := by
  unfold Item.modifyBlock
  split
  · next heq => exact absurd heq (by simp)
  · next heq =>
    obtain ⟨rfl, -, -⟩ := Item.guard.inj heq
    exact ⟨_, _, rfl⟩
  · next heq =>
    obtain ⟨rfl, -, -⟩ := Item.guard.inj heq
    exact ⟨_, _, rfl⟩
  · exact ⟨item, other, rfl⟩

/-- Every reference of a body is to its last item, and at most one of the slots waits. -/
structure Body.Placed (b : Body) : Prop where
  opened : ∀ ref, b.openBlock = some ref → b.pendingGuard = none ∧ b.pendingOtherwise = none ∧
    ∃ front last blk, b.items = front ++ [last] ∧ ref.item = front.length ∧
      last.EndsIn blk ref.slot
  pendingOtherwise : ∀ p, b.pendingOtherwise = some p → b.pendingGuard = none ∧
    ∃ front g item, b.items = front ++ [.guard g item none] ∧ p.slot = front.length
  otherwiseSlot : ∀ i, b.otherwiseSlot = some i →
    ∃ front g item other, b.items = front ++ [.guard g item other] ∧ i = front.length

theorem modify_concat {α : Type} (front : List α) (last : α) (f : α → α) :
    (front ++ [last]).modify front.length f = front ++ [f last] := by
  induction front with
  | nil => rfl
  | cons x front ih => simpa using ih

/-- The open block is found at the end of the items. -/
theorem currentBlock_eq {b : Body} {ref : BlockRef} (hopen : b.openBlock = some ref)
    (hitems : b.items = front ++ [last]) (hplace : ref.item = front.length)
    (hlast : last.EndsIn blk ref.slot) :
    b.currentBlock = some blk := by
  simp [Body.currentBlock, hopen, hitems, hplace, hlast.blockAt]

theorem currentBlock_eq_none {b : Body} (h : b.openBlock = none) : b.currentBlock = none := by
  simp [Body.currentBlock, h]

section Fields

variable (b : Body) (ref : BlockRef)

@[simp] theorem Body.close_items : b.close.items = b.items := rfl
@[simp] theorem Body.close_openBlock : b.close.openBlock = none := rfl
@[simp] theorem Body.close_pendingGuard : b.close.pendingGuard = b.pendingGuard := rfl
@[simp] theorem Body.close_pendingOtherwise : b.close.pendingOtherwise = b.pendingOtherwise := rfl
@[simp] theorem Body.close_otherwiseSlot : b.close.otherwiseSlot = b.otherwiseSlot := rfl
@[simp] theorem Body.openAt_items : (b.openAt ref).items = b.items := rfl
@[simp] theorem Body.openAt_openBlock : (b.openAt ref).openBlock = some ref := rfl
@[simp] theorem Body.openAt_pendingGuard : (b.openAt ref).pendingGuard = b.pendingGuard := rfl
@[simp] theorem Body.openAt_otherwiseSlot : (b.openAt ref).otherwiseSlot = b.otherwiseSlot := rfl

@[simp]
theorem Body.openAt_pendingOtherwise :
    (b.openAt ref).pendingOtherwise = b.pendingOtherwise := rfl

end Fields

/-! ### The entries of a body under construction -/

/-- The entries of the items, without the `merge` that an open `parallel` block still waits for. -/
def Body.shown (b : Body) : List Entry :=
  if b.inParallel then (b.items.flatMap Item.entries).dropLast else b.items.flatMap Item.entries

/-- The entries of a body, with the lines that wait for an item. -/
def Body.entries (b : Body) : List Entry :=
  b.shown ++ b.pendingGuard.elim [] Guard.entries ++
    b.pendingOtherwise.elim [] fun p => [.otherwise p.lineno]

/-- The items end with the open block as far as it is written. -/
theorem shown_of_open {b : Body} {ref : BlockRef} {before : List Entry}
    (hopen : b.openBlock = some ref) (hitems : b.items = front ++ [last])
    (hplace : ref.item = front.length) (hlast : last.EndsIn blk ref.slot)
    (hbefore : last.entries = before ++ blk.entries) :
    b.shown = front.flatMap Item.entries ++ before ++ blk.openEntries := by
  have hcurrent := currentBlock_eq hopen hitems hplace hlast
  have hall : b.items.flatMap Item.entries =
      front.flatMap Item.entries ++ before ++ blk.entries := by
    simp [hitems, hbefore]
  have hparallel : b.inParallel ↔ blk.type = .parallel := by
    simp [Body.inParallel, hcurrent]
  rw [Body.shown, hall]
  by_cases h : blk.type = .parallel
  · rw [if_pos (hparallel.mpr h), Block.entries, if_pos h, ← List.append_assoc,
      List.dropLast_concat]
  · rw [if_neg (mt hparallel.mp h), Block.entries, if_neg h, List.append_nil]

/-- Without an open block all entries of the items are shown. -/
theorem shown_of_closed {b : Body} (h : ¬b.inParallel) :
    b.shown = b.items.flatMap Item.entries := by
  rw [Body.shown, if_neg h]

theorem not_inParallel_of_closed {b : Body} (h : b.openBlock = none) : ¬b.inParallel := by
  simp [Body.inParallel, currentBlock_eq_none h]

/-! ### The invariant -/

/-- A body after the lines of `back`, the latest line first. -/
structure Built (back : List Line) (b : Body) : Prop where
  entries : b.entries = described back.reverse
  shallow : ∀ item ∈ b.items, item.Shallow
  placed : b.Placed
  waits : guardWaits back = b.pendingGuard.isSome
  header : (openHeader back).map Line.lineno = b.currentBlock.map Block.lineno

theorem built_empty : Built [] Body.empty where
  entries := rfl
  shallow := by simp [Body.empty]
  placed := ⟨by simp [Body.empty], by simp [Body.empty], by simp [Body.empty]⟩
  waits := rfl
  header := rfl

variable {py : Python} {back : List Line} {b b' : Body} {line : Line}

/-- The layout check of a guard changes nothing but the remembered column. -/
theorem checkGuardLayout_eq (h : checkGuardLayout b line = .ok b') :
    b' = { b with guardVisual := none } := by
  unfold checkGuardLayout at h
  split at h
  · next hnone =>
    obtain rfl := Except.ok.inj h
    cases b
    simpa using hnone
  · split at h
    · exact (Except.ok.inj h).symm
    · exact absurd h (by simp)

/-- An item that no open block takes comes after all entries of the body, and nothing waits any
longer. -/
structure Attached (b : Body) (item : Item) (placed : Body × BlockRef) : Prop where
  items : placed.1.items.flatMap Item.entries = b.entries ++ item.entries
  shallow : ∀ item ∈ placed.1.items, item.Shallow
  openBlock : placed.1.openBlock = none
  pendingGuard : placed.1.pendingGuard = none
  pendingOtherwise : placed.1.pendingOtherwise = none
  otherwiseSlot : ∀ i, placed.1.otherwiseSlot = some i →
    ∃ front g item other, placed.1.items = front ++ [.guard g item other] ∧ i = front.length
  place : ∀ blk, item = .block blk → ∃ front last, placed.1.items = front ++ [last] ∧
    placed.2.item = front.length ∧ last.EndsIn blk placed.2.slot

theorem attached_attachItem {placed : Body × BlockRef} (hplaced : b.Placed)
    (hshallow : ∀ item ∈ b.items, item.Shallow) (hopen : b.openBlock = none) (hflat : item.Flat)
    (h : attachItem b item line = .ok placed) : Attached b item placed := by
  have hshown := shown_of_closed (not_inParallel_of_closed hopen)
  unfold attachItem at h
  split at h
  · next p hp =>
    -- the `otherwise` of the last item
    obtain ⟨hguard, front, g, guarded, hitems, hslot⟩ := hplaced.pendingOtherwise p hp
    obtain rfl := Except.ok.inj h
    have hmodify : b.items.modify p.slot (Item.setOtherwise p.lineno item) =
        front ++ [.guard g guarded (some (p.lineno, item))] := by
      rw [hitems, hslot, modify_concat]
      rfl
    constructor
    · dsimp only
      rw [hmodify]
      simp [Body.entries, hshown, hitems, hguard, hp, Item.entries]
    · intro x hx
      rw [hmodify, List.mem_append, List.mem_singleton] at hx
      rcases hx with hx | rfl
      · exact hshallow x (by simp [hitems, hx])
      · have hlast : Item.Shallow (.guard g guarded none) := hshallow _ (by simp [hitems])
        exact ⟨hlast.1, by simpa using hflat⟩
    · exact hopen
    · exact hguard
    · rfl
    · intro i hi
      obtain ⟨front', g', guarded', other', hitems', rfl⟩ := hplaced.otherwiseSlot i hi
      have hfront : front' = front := (List.append_inj' (hitems'.symm.trans hitems) rfl).1
      exact ⟨front, g, guarded, _, hmodify, by rw [hfront]⟩
    · rintro blk rfl
      exact ⟨front, _, hmodify, hslot, .otherwise g guarded p.lineno⟩
  · next hp =>
    split at h
    · next hguard =>
      obtain ⟨b₁, hlayout, h⟩ := bind_eq_ok.mp h
      obtain rfl := pure_eq_ok.mp h
      obtain rfl := checkGuardLayout_eq hlayout
      constructor
      · simp [Body.entries, hshown, hguard, hp]
      · intro x hx
        rw [List.mem_append, List.mem_singleton] at hx
        rcases hx with hx | rfl
        · exact hshallow x hx
        · cases hflat <;> trivial
      · exact hopen
      · exact hguard
      · exact hp
      · simp
      · rintro blk rfl
        exact ⟨b.items, _, rfl, rfl, .top⟩
    · next g hguard =>
      obtain rfl := Except.ok.inj h
      constructor
      · simp [Body.entries, hshown, hguard, hp, Item.entries]
      · intro x hx
        rw [List.mem_append, List.mem_singleton] at hx
        rcases hx with hx | rfl
        · exact hshallow x hx
        · exact ⟨hflat, by simp⟩
      · exact hopen
      · rfl
      · exact hp
      · intro i hi
        dsimp only at hi
        split at hi
        · obtain rfl := Option.some.inj hi
          exact ⟨b.items, g, item, none, rfl, rfl⟩
        · exact absurd hi (by simp)
      · rintro blk rfl
        exact ⟨b.items, _, rfl, rfl, .guarded g⟩

/-- Where nothing waits for an item, the entries are those of the items. -/
theorem entries_of_settled (hguard : b.pendingGuard = none) (hother : b.pendingOtherwise = none) :
    b.entries = b.shown := by
  simp [Body.entries, hguard, hother]

/-- Where no block is open, the entries are those of the items and of what waits. -/
theorem entries_of_closed (h : b.openBlock = none) : b.entries =
    b.items.flatMap Item.entries ++ b.pendingGuard.elim [] Guard.entries ++
      b.pendingOtherwise.elim [] fun p => [.otherwise p.lineno] := by
  rw [Body.entries, shown_of_closed (not_inParallel_of_closed h)]

/-! ### One line -/

/-- Closing a `pipeline` block changes no entry. -/
theorem entries_close (h : ¬b.inParallel) : b.close.entries = b.entries := by
  have hclosed := shown_of_closed (not_inParallel_of_closed b.close_openBlock)
  rw [Body.entries, hclosed, Body.entries, shown_of_closed h]
  rfl

/-- The references other than the open block stay in place when it is closed. -/
theorem Body.Placed.close (h : b.Placed) : b.close.Placed :=
  ⟨by simp, h.pendingOtherwise, h.otherwiseSlot⟩

section

variable (hb : Built back b)
include hb

theorem built_mergeLine (hhead : line.head = "merge") (h : mergeLine b line = .ok b') :
    Built (line :: back) b' := by
  unfold mergeLine at h
  split at h
  · next hparallel =>
    obtain rfl := Except.ok.inj h
    obtain ⟨ref, hopen⟩ : ∃ ref, b.openBlock = some ref := by
      cases hopen : b.openBlock with
      | none => exact absurd hparallel (not_inParallel_of_closed hopen)
      | some ref => exact ⟨ref, rfl⟩
    obtain ⟨hguard, hother, front, last, blk, hitems, hplace, hlast⟩ := hb.placed.opened ref hopen
    obtain ⟨-, -, before, hbefore, -⟩ := hlast.modifyBlock id
    have hshown := shown_of_open hopen hitems hplace hlast hbefore
    have hcurrent := currentBlock_eq hopen hitems hplace hlast
    have htype : blk.type = .parallel := by simpa [Body.inParallel, hcurrent] using hparallel
    have hentry : entryOf back line = .merge := by rw [entryOf, if_pos hhead]
    have hclosed : b.close.entries = b.items.flatMap Item.entries := by
      rw [entries_of_settled (by simpa using hguard) (by simpa using hother),
        shown_of_closed (not_inParallel_of_closed b.close_openBlock), Body.close_items]
    constructor
    · rw [described_reverse_cons, ← hb.entries, hentry, entries_of_settled hguard hother, hshown,
        hclosed]
      simp [hitems, hbefore, Block.entries, htype]
    · exact hb.shallow
    · exact hb.placed.close
    · rw [guardWaits_cons (by simp [hhead])]
      simp [hhead, guardWords, hguard]
    · rw [openHeader_cons_of_close (by simp [hhead, controlWords]) (by simp [hhead, blockWords])]
      rw [currentBlock_eq_none b.close_openBlock]
      rfl
  · exact absurd h (by simp)

theorem built_blockLine (hkind : BlockKind.ofWord? line.head = some kind)
    (hmerge : line.head ≠ "merge") (h : blockLine b kind line = .ok b') :
    Built (line :: back) b' := by
  have hword := BlockKind.word_of_ofWord? hkind
  have hmem : line.head ∈ blockWords := hword ▸ kind.word_mem
  have hor : line.head ≠ "or" := by
    rintro hor
    simp [hor, blockWords] at hmem
  have hnoguard : line.head ∉ guardWords := by
    rw [← hword]
    cases kind <;> decide
  have hentry : entryOf back line = .blockHeader kind line.rest.head? line.lineno := by
    simp only [entryOf, if_neg hmerge, hkind]
  unfold blockLine at h
  split at h
  · exact absurd h (by simp)
  next hparallel =>
  split at h
  · exact absurd h (by simp)
  split at h
  · exact absurd h (by simp)
  obtain ⟨_, -, h⟩ := bind_eq_ok.mp h
  obtain ⟨placed, hattach, h⟩ := bind_eq_ok.mp h
  obtain rfl := pure_eq_ok.mp h
  have hattached := attached_attachItem hb.placed.close hb.shallow b.close_openBlock (.block _)
    hattach
  obtain ⟨front, last, hitems, hplace, hlast⟩ := hattached.place _ rfl
  obtain ⟨-, -, before, hbefore, -⟩ := hlast.modifyBlock id
  have hopen := placed.1.openAt_openBlock placed.2
  have hitems' : (placed.1.openAt placed.2).items = front ++ [last] := hitems
  have hshown := shown_of_open hopen hitems' hplace hlast hbefore
  have hcurrent := currentBlock_eq hopen hitems' hplace hlast
  have hguard : (placed.1.openAt placed.2).pendingGuard = none := hattached.pendingGuard
  have hother : (placed.1.openAt placed.2).pendingOtherwise = none := hattached.pendingOtherwise
  constructor
  · -- a new block has no steps yet
    have hall := hattached.items
    rw [entries_close hparallel, hb.entries, hitems, List.flatMap_append, List.flatMap_singleton,
      hbefore, ← List.append_assoc] at hall
    have hfront := List.append_cancel_right hall
    rw [described_reverse_cons, hentry, entries_of_settled hguard hother, hshown, hfront]
    rfl
  · exact hattached.shallow
  · constructor
    · intro ref href
      obtain rfl := Option.some.inj (hopen.symm.trans href)
      exact ⟨hguard, hother, front, last, _, hitems', hplace, hlast⟩
    · intro p hp
      exact absurd (hother.symm.trans hp) (by simp)
    · exact hattached.otherwiseSlot
  · rw [guardWaits_cons hor, hguard]
    simpa using hnoguard
  · rw [openHeader_cons_of_block hmem, hcurrent]
    rfl

/-- A guard header waits for its item. -/
theorem built_guardLine (hmode : GuardMode.ofWord? line.head = some mode)
    (hblock : BlockKind.ofWord? line.head = none) (hmerge : line.head ≠ "merge")
    (h : guardLine py b mode line = .ok b') :
    Built (line :: back) b' := by
  have hword := GuardMode.word_of_ofWord? hmode
  have hmem : line.head ∈ guardWords := hword ▸ mode.word_mem
  have hor : line.head ≠ "or" := by
    rintro hor
    simp [hor, guardWords] at hmem
  have hentry : entryOf back line = .guardHeader mode (unwords line.rest) line.lineno := by
    simp only [entryOf, if_neg hmerge, hblock, hmode]
  unfold guardLine at h
  obtain ⟨_, -, h⟩ := bind_eq_ok.mp h
  split at h
  · exact absurd h (by simp)
  next hparallel =>
  obtain ⟨_, -, h⟩ := bind_eq_ok.mp h
  split at h
  · exact absurd h (by simp)
  · exact absurd h (by simp)
  · next hother hguard =>
    obtain ⟨b₁, hlayout, h⟩ := bind_eq_ok.mp h
    obtain rfl := pure_eq_ok.mp h
    obtain rfl := checkGuardLayout_eq hlayout
    have hitems : b.items.flatMap Item.entries = described back.reverse := by
      rw [← hb.entries, entries_of_settled hguard hother, shown_of_closed hparallel]
    constructor
    · rw [described_reverse_cons, hentry, entries_of_closed rfl]
      simp [hitems, hother, Guard.entries]
    · exact hb.shallow
    · constructor
      · simp
      · intro p hp
        exact absurd (hother.symm.trans hp) (by simp)
      · exact hb.placed.otherwiseSlot
    · rw [guardWaits_cons hor]
      simpa using hmem
    · rw [openHeader_cons_of_close (by simp [controlWords, hmem]) (not_mem_blockWords hblock),
        currentBlock_eq_none rfl]
      rfl

/-- An alternative is added to the guard that waits. -/
theorem built_orLine {g : Guard} (hguard : b.pendingGuard = some g) (hhead : line.head = "or")
    (h : orLine py b g line = .ok b') : Built (line :: back) b' := by
  have hwaits : guardWaits back = true := by rw [hb.waits, hguard]; rfl
  have hentry : entryOf back line = .alternative (unwords line.rest) := by
    simp [entryOf, hhead, hwaits, BlockKind.ofWord?, GuardMode.ofWord?, BlockKind.word,
      GuardMode.word]
  have hopen : b.openBlock = none := by
    cases hopen : b.openBlock with
    | none => rfl
    | some ref => exact absurd (hb.placed.opened ref hopen).1 (by simp [hguard])
  have hother : b.pendingOtherwise = none := by
    cases hother : b.pendingOtherwise with
    | none => rfl
    | some p => exact absurd (hb.placed.pendingOtherwise p hother).1 (by simp [hguard])
  unfold orLine at h
  split at h
  · exact absurd h (by simp)
  split at h
  · exact absurd h (by simp)
  obtain ⟨_, -, h⟩ := bind_eq_ok.mp h
  obtain rfl := pure_eq_ok.mp h
  constructor
  · have hbefore := entries_of_closed hopen
    rw [described_reverse_cons, ← hb.entries, hentry, hbefore]
    rw [entries_of_closed (by exact hopen)]
    simp [hguard, hother, Guard.entries]
  · exact hb.shallow
  · constructor
    · simp [hopen]
    · simp [hother]
    · exact hb.placed.otherwiseSlot
  · rw [guardWaits_cons_or hhead, hwaits]
    rfl
  · rw [openHeader_cons_of_not_mem (by simp [hhead, controlWords, blockWords, guardWords]),
      hb.header, currentBlock_eq_none hopen]
    simp [Body.currentBlock, hopen]

/-- An `otherwise` waits for the second item of the last guard. -/
theorem built_otherwiseLine (hhead : line.head = "otherwise") (h : otherwiseLine b line = .ok b') :
    Built (line :: back) b' := by
  have hentry : entryOf back line = .otherwise line.lineno := by
    simp [entryOf, hhead, BlockKind.ofWord?, GuardMode.ofWord?, BlockKind.word, GuardMode.word]
  unfold otherwiseLine at h
  split at h
  · exact absurd h (by simp)
  split at h
  · exact absurd h (by simp)
  next hparallel =>
  obtain ⟨_, -, h⟩ := bind_eq_ok.mp h
  obtain ⟨b₁, hlayout, h⟩ := bind_eq_ok.mp h
  obtain rfl := checkGuardLayout_eq hlayout
  split at h
  · exact absurd h (by simp)
  · exact absurd h (by simp)
  · exact absurd h (by simp)
  · exact absurd h (by simp)
  · next slot hguard hfirst _ hslot =>
    obtain rfl := pure_eq_ok.mp h
    dsimp only [Body.close] at hguard hslot
    have hother : b.pendingOtherwise = none := by
      cases hother : b.pendingOtherwise with
      | none => rfl
      | some p => simp [Body.firstOtherwise, hother] at hfirst
    obtain ⟨front, g, item, other, hitems, rfl⟩ := hb.placed.otherwiseSlot slot hslot
    have hfree : other = none := by
      cases other with
      | none => rfl
      | some entry => simp [Body.firstOtherwise, hother, hslot, hitems] at hfirst
    subst hfree
    have hall : b.items.flatMap Item.entries = described back.reverse := by
      rw [← hb.entries, entries_of_settled hguard hother, shown_of_closed hparallel]
    constructor
    · rw [described_reverse_cons, hentry, entries_of_closed rfl]
      simp [hall, hguard]
    · exact hb.shallow
    · constructor
      · simp
      · intro p hp
        obtain rfl := Option.some.inj hp
        exact ⟨hguard, front, g, item, hitems, rfl⟩
      · exact hb.placed.otherwiseSlot
    · rw [guardWaits_cons (by simp [hhead])]
      simp [hhead, guardWords, hguard]
    · rw [openHeader_cons_of_close (by simp [hhead, controlWords]) (by simp [hhead, blockWords]),
        currentBlock_eq_none rfl]
      rfl

/-- A step goes into the open block; without one it is an item. -/
theorem built_attachStep (hcontrol : line.head ∉ controlWords)
    (hor : line.head = "or" → b.pendingGuard = none) (h : attachStep b line = .ok b') :
    Built (line :: back) b' := by
  have hentry : entryOf back line = .step line (b.currentBlock.map Block.lineno) := by
    have hmerge : line.head ≠ "merge" := fun h => hcontrol (by simp [controlWords, h])
    have hother : line.head ≠ "otherwise" := fun h => hcontrol (by simp [controlWords, h])
    have hblock : BlockKind.ofWord? line.head = none := by
      cases hkind : BlockKind.ofWord? line.head with
      | none => rfl
      | some kind =>
        have hmem := kind.word_mem
        rw [BlockKind.word_of_ofWord? hkind] at hmem
        exact absurd (by simp [controlWords, hmem]) hcontrol
    have hmode : GuardMode.ofWord? line.head = none := by
      cases hmode : GuardMode.ofWord? line.head with
      | none => rfl
      | some mode =>
        have hmem := mode.word_mem
        rw [GuardMode.word_of_ofWord? hmode] at hmem
        exact absurd (by simp [controlWords, hmem]) hcontrol
    have halternative : ¬(line.head = "or" ∧ guardWaits back = true) := by
      rintro ⟨hhead, hwait⟩
      rw [hb.waits, hor hhead] at hwait
      exact absurd hwait (by simp)
    simp only [entryOf, if_neg hmerge, hblock, hmode, if_neg halternative, if_neg hother, hb.header]
  have hwaits : guardWaits (line :: back) = false := by
    by_cases hhead : line.head = "or"
    · rw [guardWaits_cons_or hhead, hb.waits, hor hhead]
      rfl
    · rw [guardWaits_cons hhead]
      have : line.head ∉ guardWords := fun h => hcontrol (by simp [controlWords, h])
      simpa using this
  unfold attachStep at h
  split at h
  · next ref hopen =>
    obtain rfl := Except.ok.inj h
    obtain ⟨hguard, hother, front, last, blk, hitems, hplace, hlast⟩ := hb.placed.opened ref hopen
    let append : Block → Block := fun blk => { blk with steps := blk.steps ++ [line] }
    obtain ⟨hends, hshallow, before, hbefore, hafter⟩ := hlast.modifyBlock append
    have hitems' : (b.appendStep ref line).items =
        front ++ [last.modifyBlock append ref.slot] := by
      rw [Body.appendStep, hitems, hplace, modify_concat]
    have hopen' : (b.appendStep ref line).openBlock = some ref := hopen
    have hcurrent := currentBlock_eq hopen hitems hplace hlast
    have hcurrent' := currentBlock_eq hopen' hitems' hplace hends
    have hentries : (b.appendStep ref line).entries = (b.appendStep ref line).shown :=
      entries_of_settled hguard hother
    constructor
    · rw [described_reverse_cons, ← hb.entries, hentry, hentries, entries_of_settled hguard hother,
        shown_of_open hopen hitems hplace hlast hbefore,
        shown_of_open hopen' hitems' hplace hends hafter, hcurrent]
      simp [Block.openEntries, append]
    · intro item hitem
      rw [hitems', List.mem_append, List.mem_singleton] at hitem
      rcases hitem with hitem | rfl
      · exact hb.shallow item (by simp [hitems, hitem])
      · exact hshallow (hb.shallow last (by simp [hitems]))
    · constructor
      · intro r hr
        obtain rfl := Option.some.inj (hopen'.symm.trans hr)
        exact ⟨hguard, hother, front, _, _, hitems', hplace, hends⟩
      · intro p hp
        exact absurd (hother.symm.trans hp) (by simp)
      · intro i hi
        obtain ⟨front', g, item, other, hguarded, rfl⟩ := hb.placed.otherwiseSlot i hi
        obtain ⟨rfl, hlast'⟩ := List.append_inj' (hguarded.symm.trans hitems) rfl
        obtain rfl := (List.cons.inj hlast').1
        obtain ⟨item', other', heq⟩ := Item.modifyBlock_guard append ref.slot g item other
        exact ⟨front', g, item', other', by rw [hitems', heq], rfl⟩
    · rw [hwaits, show (b.appendStep ref line).pendingGuard = none from hguard]
      rfl
    · rw [openHeader_cons_of_not_mem hcontrol, hb.header, hcurrent, hcurrent']
      rfl
  · next hopen =>
    obtain ⟨placed, hattach, h⟩ := bind_eq_ok.mp h
    obtain rfl := pure_eq_ok.mp h
    have hattached := attached_attachItem hb.placed hb.shallow hopen (.step line) hattach
    have hclosed := hattached.openBlock
    constructor
    · rw [described_reverse_cons, ← hb.entries, hentry, currentBlock_eq_none hopen,
        entries_of_settled hattached.pendingGuard hattached.pendingOtherwise,
        shown_of_closed (not_inParallel_of_closed hclosed), hattached.items]
      rfl
    · exact hattached.shallow
    · exact ⟨by simp [hclosed], by simp [hattached.pendingOtherwise], hattached.otherwiseSlot⟩
    · rw [hwaits, hattached.pendingGuard]
      rfl
    · rw [openHeader_cons_of_not_mem hcontrol, hb.header, currentBlock_eq_none hopen,
        currentBlock_eq_none hclosed]

/-- **One line**: every line is entered where it stands. -/
theorem built_appendWorkflowItem (h : appendWorkflowItem py b line = .ok b') :
    Built (line :: back) b' := by
  unfold appendWorkflowItem at h
  split at h
  · next hmerge => exact built_mergeLine hb hmerge h
  next hmerge =>
  split at h
  · next kind hkind => exact built_blockLine hb hkind hmerge h
  · next mode hblock hmode => exact built_guardLine hb hmode hblock hmerge h
  next hblock hmode =>
  have hcontrol (hother : line.head ≠ "otherwise") : line.head ∉ controlWords := by
    simp only [controlWords, List.mem_append, List.mem_cons, List.not_mem_nil, or_false]
    rintro (((hmem | hmem) | hmem) | hmem)
    · exact hmerge hmem
    · exact hother hmem
    · exact not_mem_blockWords hblock hmem
    · exact not_mem_guardWords hmode hmem
  split at h
  · next g hguard =>
    split at h
    · next hor => exact built_orLine hb hguard hor h
    next hor =>
    split at h
    · next hother => exact built_otherwiseLine hb hother h
    · next hother => exact built_attachStep hb (hcontrol hother) (fun h => absurd h hor) h
  · next hguard =>
    split at h
    · next hother => exact built_otherwiseLine hb hother h
    · next hother => exact built_attachStep hb (hcontrol hother) (fun _ => hguard) h

/-- **A body**: the lines that are read one after the other are all entered. -/
theorem built_foldlM {lines : List Line} (h : lines.foldlM (appendWorkflowItem py) b = .ok b') :
    Built (lines.reverse ++ back) b' := by
  induction lines generalizing back b with
  | nil =>
    rw [List.foldlM_nil, pure_eq_ok] at h
    rwa [← h]
  | cons l lines ih =>
    rw [List.foldlM_cons] at h
    obtain ⟨b₁, hline, h⟩ := bind_eq_ok.mp h
    have hrest := ih (built_appendWorkflowItem hb hline) h
    rwa [List.reverse_cons, List.append_assoc]

/-- At the end of the source nothing waits. -/
theorem conserved_finishBody {name : String} {items : List Item}
    (h : finishBody name b = .ok items) : Conserved back.reverse items := by
  unfold finishBody at h
  split at h
  · exact absurd h (by simp)
  next hparallel =>
  split at h
  · exact absurd h (by simp)
  · exact absurd h (by simp)
  · next hguard hother =>
    obtain rfl := Except.ok.inj h
    refine ⟨?_, hb.shallow⟩
    rw [← hb.entries, entries_of_settled hguard hother, shown_of_closed hparallel]

end

end Lnpl.Front
