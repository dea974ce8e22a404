import Lnpl.Front.WorkflowBody
import Lnpl.Lib.Results

/-!
# The columns of a workflow body decide nothing

What the body is built from the lines in one layout, it is built from the lines without their
columns (`flat_appendWorkflowItem`): columns are read by two checks only, and neither rejects a line
at column 0.
-/

namespace Lnpl.Front

open Lib (bind_eq_ok pure_eq_ok)

variable {py : Python} {b b' : Body} {line : Line}

/-! ### Lines and blocks -/

section Fields

variable (line : Line) (b : Body)

@[simp] theorem Line.flat_head : line.flat.head = line.head := rfl
@[simp] theorem Line.flat_rest : line.flat.rest = line.rest := rfl
@[simp] theorem Line.flat_tokens : line.flat.tokens = line.tokens := rfl
@[simp] theorem Line.flat_lineno : line.flat.lineno = line.lineno := rfl
@[simp] theorem Line.flat_indent : line.flat.indent = 0 := rfl
@[simp] theorem Body.flat_items : b.flat.items = b.items.map Item.flat := rfl
@[simp] theorem Body.flat_openBlock : b.flat.openBlock = b.openBlock := rfl
@[simp] theorem Body.flat_pendingGuard : b.flat.pendingGuard = b.pendingGuard.map Guard.flat := rfl
@[simp] theorem Body.flat_otherwiseSlot : b.flat.otherwiseSlot = b.otherwiseSlot := rfl
@[simp] theorem Body.flat_otherwiseRefused : b.flat.otherwiseRefused = b.otherwiseRefused := rfl
@[simp] theorem Body.flat_guardVisual : b.flat.guardVisual = none := rfl

@[simp]
theorem Body.flat_pendingOtherwise : b.flat.pendingOtherwise =
    b.pendingOtherwise.map fun p => { p with indent := 0 } := rfl

theorem Body.flat_close : b.close.flat = b.flat.close := rfl

end Fields

@[simp]
theorem Item.flat_step (line : Line) : (Item.step line).flat = .step line.flat := rfl

@[simp]
theorem Item.flat_block (blk : Block) : (Item.block blk).flat = .block blk.flat := rfl

@[simp]
theorem Item.flat_guard (g : Guard) (guarded : Item) (other : Option (Nat × Item)) :
    (Item.guard g guarded other).flat =
      .guard g.flat guarded.flat (other.map fun entry => (entry.1, entry.2.flat)) := by
  cases other <;> rfl

theorem Item.blockAt_flat (slot : Slot) (item : Item) :
    item.flat.blockAt slot = (item.blockAt slot).map Block.flat := by
  cases item with
  | step line => cases slot <;> rfl
  | block blk => cases slot <;> rfl
  | guard g guarded other =>
    cases slot with
    | top => simp [Item.blockAt]
    | guarded => cases guarded <;> simp [Item.blockAt]
    | otherwise =>
      rcases other with _ | ⟨n, other⟩
      · simp [Item.blockAt]
      · cases other <;> simp [Item.blockAt]

theorem Item.modifyBlock_flat {f f' : Block → Block} (hf : ∀ blk, (f blk).flat = f' blk.flat)
    (slot : Slot) (item : Item) :
    (item.modifyBlock f slot).flat = item.flat.modifyBlock f' slot := by
  cases item with
  | step line => cases slot <;> rfl
  | block blk => cases slot <;> simp [Item.modifyBlock, hf]
  | guard g guarded other =>
    cases slot with
    | top => simp [Item.modifyBlock]
    | guarded => cases guarded <;> simp [Item.modifyBlock, hf]
    | otherwise =>
      rcases other with _ | ⟨n, other⟩
      · simp [Item.modifyBlock]
      · cases other <;> simp [Item.modifyBlock, hf]

theorem Item.setOtherwise_flat (n : Nat) (other item : Item) :
    (Item.setOtherwise n other item).flat = Item.setOtherwise n other.flat item.flat := by
  cases item <;> simp [Item.setOtherwise]

/-! ### The state of a body -/

@[simp]
theorem currentBlock_flat (b : Body) : b.flat.currentBlock = b.currentBlock.map Block.flat := by
  unfold Body.currentBlock
  cases hopen : b.openBlock with
  | none => simp [hopen]
  | some ref =>
    cases hitem : b.items[ref.item]? with
    | none => simp [hopen, hitem]
    | some item => simp [hopen, hitem, Item.blockAt_flat]

@[simp]
theorem inParallel_flat (b : Body) : b.flat.inParallel ↔ b.inParallel := by
  simp only [Body.inParallel, currentBlock_flat, Option.map_map]
  rfl

theorem modify_map {α : Type} {f g h : α → α} (hfg : ∀ x, h (f x) = g (h x)) (xs : List α)
    (i : Nat) : (xs.modify i f).map h = (xs.map h).modify i g := by
  induction xs generalizing i with
  | nil => simp
  | cons x xs ih => cases i <;> simp [ih, hfg]

theorem flat_appendStep (ref : BlockRef) :
    (b.appendStep ref line).flat = b.flat.appendStep ref line.flat := by
  let append (line : Line) (blk : Block) : Block := { blk with steps := blk.steps ++ [line] }
  have hblock : ∀ blk, (append line blk).flat = append line.flat blk.flat := fun blk => by
    simp [append, Block.flat]
  have happend := Item.modifyBlock_flat hblock ref.slot
  simp [Body.flat, Body.appendStep, ← modify_map happend, append]

/-- Without columns no layout is rejected. -/
theorem flat_checkPipelineLayout (b : Body) (line : Line) :
    checkPipelineLayout b.flat line.flat = .ok () := by
  unfold checkPipelineLayout
  split
  · rfl
  · rw [if_pos (by simp)]

theorem flat_checkGuardLayout (h : checkGuardLayout b line = .ok b') :
    checkGuardLayout b.flat line.flat = .ok b'.flat := by
  have hflat : b'.flat = b.flat := by
    unfold checkGuardLayout at h
    split at h
    · rw [Except.ok.inj h]
    · split at h
      · rw [← Except.ok.inj h]
        rfl
      · exact absurd h (by simp)
  rw [hflat]
  rfl

/-! ### Placing an item -/

theorem flat_attachItem {item : Item} {placed : Body × BlockRef}
    (h : attachItem b item line = .ok placed) :
    attachItem b.flat item.flat line.flat = .ok (placed.1.flat, placed.2) := by
  unfold attachItem at h ⊢
  rw [Body.flat_pendingOtherwise, Body.flat_pendingGuard]
  split at h
  · next p hp =>
    obtain rfl := Except.ok.inj h
    have hset := Item.setOtherwise_flat p.lineno item
    simp [hp, Body.flat, modify_map hset]
  · next hp =>
    split at h
    · next hguard =>
      obtain ⟨b₁, hlayout, h⟩ := bind_eq_ok.mp h
      obtain rfl := pure_eq_ok.mp h
      have hflat := flat_checkGuardLayout hlayout
      simp only [hp, hguard, Option.map_none]
      refine bind_eq_ok.mpr ⟨b₁.flat, ?_, ?_⟩
      · rw [← hflat]
        simp [Body.flat, hp, hguard]
      · simp [Body.flat, pure, Except.pure]
    · next g hguard =>
      obtain rfl := Except.ok.inj h
      simp [hp, hguard, Body.flat, Guard.flat]

theorem flat_attachStep (h : attachStep b line = .ok b') :
    attachStep b.flat line.flat = .ok b'.flat := by
  unfold attachStep at h ⊢
  rw [Body.flat_openBlock]
  split at h
  · next ref hopen =>
    obtain rfl := Except.ok.inj h
    simp [flat_appendStep]
  · next hopen =>
    obtain ⟨placed, hattach, h⟩ := bind_eq_ok.mp h
    obtain rfl := pure_eq_ok.mp h
    have hflat := flat_attachItem hattach
    exact bind_eq_ok.mpr ⟨_, hflat, rfl⟩

/-! ### The lines of a body -/

theorem flat_mergeLine (h : mergeLine b line = .ok b') :
    mergeLine b.flat line.flat = .ok b'.flat := by
  unfold mergeLine at h ⊢
  split at h
  · next hparallel =>
    obtain rfl := Except.ok.inj h
    rw [if_pos ((inParallel_flat b).mpr hparallel), Body.flat_close]
  · exact absurd h (by simp)

theorem flat_blockLine {kind : BlockKind} (h : blockLine b kind line = .ok b') :
    blockLine b.flat kind line.flat = .ok b'.flat := by
  unfold blockLine at h ⊢
  split at h
  · exact absurd h (by simp)
  next hparallel =>
  split at h
  · exact absurd h (by simp)
  next hpipeline =>
  split at h
  · exact absurd h (by simp)
  next hname =>
  obtain ⟨_, -, h⟩ := bind_eq_ok.mp h
  obtain ⟨placed, hattach, h⟩ := bind_eq_ok.mp h
  obtain rfl := pure_eq_ok.mp h
  have hflat := flat_attachItem hattach
  rw [if_neg (mt (inParallel_flat b).mp hparallel), Line.flat_tokens, if_neg hpipeline,
    if_neg hname]
  refine bind_eq_ok.mpr ⟨(), flat_checkPipelineLayout b line, ?_⟩
  exact bind_eq_ok.mpr ⟨_, hflat, rfl⟩

theorem flat_guardLine {mode : GuardMode} (h : guardLine py b mode line = .ok b') :
    guardLine py b.flat mode line.flat = .ok b'.flat := by
  unfold guardLine at h ⊢
  obtain ⟨_, hwords, h⟩ := bind_eq_ok.mp h
  refine bind_eq_ok.mpr ⟨(), hwords, ?_⟩
  split at h
  · exact absurd h (by simp)
  next hparallel =>
  obtain ⟨_, -, h⟩ := bind_eq_ok.mp h
  rw [if_neg (mt (inParallel_flat b).mp hparallel)]
  refine bind_eq_ok.mpr ⟨(), flat_checkPipelineLayout b line, ?_⟩
  rw [Body.flat_pendingOtherwise, Body.flat_pendingGuard]
  split at h
  · exact absurd h (by simp)
  · exact absurd h (by simp)
  · next hother hguard =>
    obtain ⟨b₁, hlayout, h⟩ := bind_eq_ok.mp h
    obtain rfl := pure_eq_ok.mp h
    have hflat := flat_checkGuardLayout hlayout
    rw [hother, hguard]
    exact bind_eq_ok.mpr ⟨b₁.flat, hflat, rfl⟩

theorem flat_orLine {g : Guard} (h : orLine py b g line = .ok b') :
    orLine py b.flat g.flat line.flat = .ok b'.flat := by
  unfold orLine at h ⊢
  split at h
  · exact absurd h (by simp)
  next hmode =>
  split at h
  · exact absurd h (by simp)
  next hrest =>
  obtain ⟨_, hcondition, h⟩ := bind_eq_ok.mp h
  obtain rfl := pure_eq_ok.mp h
  have hmode' : ¬g.flat.mode ≠ .when := hmode
  rw [if_neg hmode', Line.flat_rest, if_neg hrest]
  exact bind_eq_ok.mpr ⟨(), hcondition, rfl⟩

theorem firstOtherwise_flat (b : Body) : b.flat.firstOtherwise = b.firstOtherwise := by
  unfold Body.firstOtherwise
  rw [Body.flat_pendingOtherwise]
  cases hother : b.pendingOtherwise with
  | some p => rfl
  | none =>
    rw [Body.flat_otherwiseSlot]
    cases hslot : b.otherwiseSlot with
    | none => rfl
    | some i =>
      cases hitem : b.items[i]? with
      | none => simp [hitem]
      | some item =>
        cases item with
        | step line => simp [hitem]
        | block blk => simp [hitem]
        | guard g guarded other => cases other <;> simp [hitem]

theorem flat_otherwiseLine (h : otherwiseLine b line = .ok b') :
    otherwiseLine b.flat line.flat = .ok b'.flat := by
  unfold otherwiseLine at h ⊢
  split at h
  · exact absurd h (by simp)
  next hwords =>
  split at h
  · exact absurd h (by simp)
  next hparallel =>
  obtain ⟨_, -, h⟩ := bind_eq_ok.mp h
  obtain ⟨b₁, hlayout, h⟩ := bind_eq_ok.mp h
  rw [Line.flat_tokens, if_neg hwords, if_neg (mt (inParallel_flat b).mp hparallel)]
  refine bind_eq_ok.mpr ⟨(), flat_checkPipelineLayout b line, ?_⟩
  have hflat := flat_checkGuardLayout hlayout
  refine bind_eq_ok.mpr ⟨b₁.flat, hflat, ?_⟩
  split at h
  · exact absurd h (by simp)
  · exact absurd h (by simp)
  · exact absurd h (by simp)
  · exact absurd h (by simp)
  · next slot hguard hfirst hrefused hslot =>
    obtain rfl := pure_eq_ok.mp h
    simp only [Body.flat_pendingGuard, hguard, firstOtherwise_flat, hfirst,
      Body.flat_otherwiseRefused, hrefused, Body.flat_otherwiseSlot, hslot, Option.map_none]
    rfl

/-- **Layout of a body**: a line that is accepted is accepted without its column. -/
theorem flat_appendWorkflowItem (h : appendWorkflowItem py b line = .ok b') :
    appendWorkflowItem py b.flat line.flat = .ok b'.flat := by
  unfold appendWorkflowItem at h ⊢
  rw [Line.flat_head, Body.flat_pendingGuard]
  split at h
  · next hmerge =>
    rw [if_pos hmerge]
    exact flat_mergeLine h
  next hmerge =>
  rw [if_neg hmerge]
  split at h
  · exact flat_blockLine h
  · exact flat_guardLine h
  split at h
  · next g hguard =>
    rw [hguard]
    dsimp only [Option.map_some]
    split at h
    · next hor =>
      rw [if_pos hor]
      exact flat_orLine h
    next hor =>
    rw [if_neg hor]
    split at h
    · next hother =>
      rw [if_pos hother]
      exact flat_otherwiseLine h
    · next hother =>
      rw [if_neg hother]
      exact flat_attachStep h
  · next hguard =>
    rw [hguard]
    dsimp only [Option.map_none]
    split at h
    · next hother =>
      rw [if_pos hother]
      exact flat_otherwiseLine h
    · next hother =>
      rw [if_neg hother]
      exact flat_attachStep h

theorem flat_finishBody {name : String} {items : List Item} (h : finishBody name b = .ok items) :
    finishBody name b.flat = .ok (items.map Item.flat) := by
  unfold finishBody at h ⊢
  split at h
  · exact absurd h (by simp)
  next hparallel =>
  rw [if_neg (mt (inParallel_flat b).mp hparallel), Body.flat_pendingGuard,
    Body.flat_pendingOtherwise]
  split at h
  · exact absurd h (by simp)
  · exact absurd h (by simp)
  · next hguard hother =>
    obtain rfl := Except.ok.inj h
    rw [hguard, hother]
    rfl

end Lnpl.Front
