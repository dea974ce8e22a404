import Lnpl.Front.Condition

/-!
# The body of a workflow

`_append_workflow_item` and the functions under it: the lines of a workflow body become a list of
items, one line at a time.  Python keeps references into the list (the open block, the guard item
whose `otherwise` may follow); here a reference is the place of what it refers to.
-/

namespace Lnpl.Front

/-- What leaves the parser as a Python exception. -/
inductive ParseFault where
  /-- `ParseError` -/
  | parse (message : String)
  /-- an exception of `parse_condition` that is no `ConditionError` -/
  | escape (fault : Fault)
  deriving DecidableEq, Repr

/-! ### Items -/

inductive GuardMode where
  | «when» | «until» | «repeat»
  deriving DecidableEq, Repr

def GuardMode.word : GuardMode → String
  | «when» => "when"
  | «until» => "until"
  | «repeat» => "repeat"

def GuardMode.ofWord? (tok : String) : Option GuardMode :=
  [GuardMode.when, GuardMode.until, GuardMode.repeat].find? fun mode => mode.word = tok

structure Guard where
  mode : GuardMode
  arg : String
  lineno : Nat
  indent : Nat
  alternatives : List String
  deriving DecidableEq

inductive BlockKind where
  | parallel | pipeline
  deriving DecidableEq, Repr

def BlockKind.word : BlockKind → String
  | parallel => "parallel"
  | pipeline => "pipeline"

def BlockKind.ofWord? (tok : String) : Option BlockKind :=
  [BlockKind.parallel, BlockKind.pipeline].find? fun kind => kind.word = tok

structure Block where
  type : BlockKind
  lineno : Nat
  name : Option String
  indent : Nat
  steps : List Line
  deriving DecidableEq

/-- An item of a body.  Nothing in this type says that the items of a guard are no guards. -/
inductive Item where
  | step (line : Line)
  | block (blk : Block)
  /-- the guarded item, and the line and the item of an `otherwise` -/
  | guard (g : Guard) (guarded : Item) (otherwise : Option (Nat × Item))

/-! ### References -/

/-- Where a block stands in the item that holds it. -/
inductive Slot where
  | top | guarded | otherwise
  deriving DecidableEq, Repr

/-- A block of a body: the index of the item, and the place in it. -/
structure BlockRef where
  item : Nat
  slot : Slot
  deriving DecidableEq, Repr

def Item.blockAt : Slot → Item → Option Block
  | .top, .block blk => some blk
  | .guarded, .guard _ (.block blk) _ => some blk
  | .otherwise, .guard _ _ (some (_, .block blk)) => some blk
  | _, _ => none

def Item.modifyBlock (f : Block → Block) : Slot → Item → Item
  | .top, .block blk => .block (f blk)
  | .guarded, .guard g (.block blk) other => .guard g (.block (f blk)) other
  | .otherwise, .guard g item (some (n, .block blk)) => .guard g item (some (n, .block (f blk)))
  | _, item => item

/-- `slot["otherwise"] = item` of a guard item. -/
def Item.setOtherwise (lineno : Nat) (other : Item) : Item → Item
  | .guard g item _ => .guard g item (some (lineno, other))
  | item => item

/-! ### The state of a body -/

/-- `_pending_otherwise`; `slot` is the index of the guard item. -/
structure PendingOtherwise where
  slot : Nat
  lineno : Nat
  indent : Nat
  deriving DecidableEq

/-- `_guard_visual`. -/
structure Visual where
  column : Nat
  lineno : Nat
  mode : String
  deriving DecidableEq

/-- `decl.items` of a workflow and its scratch slots. -/
structure Body where
  items : List Item
  openBlock : Option BlockRef
  pendingGuard : Option Guard
  pendingOtherwise : Option PendingOtherwise
  otherwiseSlot : Option Nat
  otherwiseRefused : Option (GuardMode × Nat)
  guardVisual : Option Visual

/-- The body of a workflow that has just been opened. -/
def Body.empty : Body := ⟨[], none, none, none, none, none, none⟩

/-- The block that `_open_block` refers to. -/
def Body.currentBlock (b : Body) : Option Block :=
  b.openBlock.bind fun ref => b.items[ref.item]?.bind (Item.blockAt ref.slot)

/-- `decl.extra.pop("_open_block", None)`. -/
def Body.close (b : Body) : Body := { b with openBlock := none }

/-- `decl.extra["_open_block"] = block`, of the block at a place. -/
def Body.openAt (b : Body) (ref : BlockRef) : Body := { b with openBlock := some ref }

/-- `open_block["steps"].append(line)`. -/
def Body.appendStep (b : Body) (ref : BlockRef) (line : Line) : Body :=
  let append := Item.modifyBlock (fun blk => { blk with steps := blk.steps ++ [line] }) ref.slot
  { b with items := b.items.modify ref.item append }

/-- A `parallel` block waits for its `merge`. -/
def Body.inParallel (b : Body) : Prop := b.currentBlock.map Block.type = some .parallel

instance (b : Body) : Decidable b.inParallel := inferInstanceAs (Decidable (_ = _))

/-- The words after the first. -/
def Line.rest (line : Line) : List String := line.tokens.tail

/-- The end of a message about a layout that contradicts the blocks. -/
def blockStructure : String := "(RFC-0002 §Block structure)"

/-- `_check_guard_layout`; the column is judged once. -/
def checkGuardLayout (b : Body) (line : Line) : Except ParseFault Body :=
  match b.guardVisual with
  | none => .ok b
  | some visual =>
    if line.indent ≤ visual.column then .ok { b with guardVisual := none }
    else .error (.parse (s!"line {line.lineno}: this line is indented as if it were inside the " ++
        s!"`{visual.mode}` guard on line {visual.lineno}, but a guard owns exactly one step or " ++
        "block — so it runs outside the guard. Wrap the steps in a `pipeline` block and let the " ++
        s!"guard own that, or dedent this line to the guard's own column {blockStructure}"))

/-- What `_check_pipeline_layout` proposes. -/
def pipelineFix (head : String) : String :=
  if head ∈ ["when", "until", "repeat", "otherwise"] then
    ("Dedent it to the pipeline's own column, or wrap the following steps in a new `pipeline` " ++
        "block so a guard can own that instead")
  else ("Dedent it to the pipeline's own column if you meant a new sibling block here, not one " ++
      "nested inside it")

/-- `_check_pipeline_layout`. -/
def checkPipelineLayout (b : Body) (line : Line) : Except ParseFault Unit :=
  match b.currentBlock with
  | none => .ok ()
  | some blk =>
    if blk.type ≠ .pipeline ∨ line.indent ≤ blk.indent then .ok ()
    else
      let label := match blk.name with
        | some name => s!"`pipeline {name}`"
        | none => s!"the `pipeline` opened on line {blk.lineno}"
      .error (.parse (s!"line {line.lineno}: this `{line.head}` is indented as if it were " ++
          s!"inside {label}, but a `pipeline` closes at the next keyword, not by indentation — " ++
          s!"so it runs outside the pipeline. {pipelineFix line.head} (RFC-0058, RFC-0002 " ++
          "§Block structure)"))

/-! ### Placing an item -/

/-- `_attach` of an item that no open block takes; the result tells where the item stands. -/
def attachItem (b : Body) (item : Item) (line : Line) : Except ParseFault (Body × BlockRef) :=
  match b.pendingOtherwise with
  | some p =>
    -- the guard item is already in the list
    let visual := if p.indent < line.indent then some ⟨p.indent, p.lineno, "otherwise"⟩
      else b.guardVisual
    .ok ({ b with
      items := b.items.modify p.slot (Item.setOtherwise p.lineno item)
      pendingOtherwise := none
      guardVisual := visual }, ⟨p.slot, .otherwise⟩)
  | none =>
    match b.pendingGuard with
    | none => do
      let b ← checkGuardLayout { b with otherwiseSlot := none, otherwiseRefused := none } line
      return ({ b with items := b.items ++ [item] }, ⟨b.items.length, .top⟩)
    | some g =>
      let visual := if g.indent < line.indent then some ⟨g.indent, g.lineno, g.mode.word⟩
        else b.guardVisual
      .ok ({ b with
        items := b.items ++ [.guard g item none]
        pendingGuard := none
        otherwiseSlot := if g.mode = .when then some b.items.length else none
        otherwiseRefused := if g.mode = .when then none else some (g.mode, g.lineno)
        guardVisual := visual }, ⟨b.items.length, .guarded⟩)

/-- `_attach` of a step. -/
def attachStep (b : Body) (line : Line) : Except ParseFault Body :=
  match b.openBlock with
  | some ref => .ok (b.appendStep ref line)
  | none => do
    let placed ← attachItem b (.step line) line
    return placed.1

/-! ### The lines of a body -/

/-- A `merge`. -/
def mergeLine (b : Body) (line : Line) : Except ParseFault Body :=
  if b.inParallel then .ok b.close
  else .error (.parse s!"line {line.lineno}: `merge` closes a `parallel` block, but none is open")

/-- A `parallel` or a `pipeline`. -/
def blockLine (b : Body) (kind : BlockKind) (line : Line) : Except ParseFault Body :=
  if b.inParallel then
    .error (.parse (s!"line {line.lineno}: `{line.head}` cannot nest inside `parallel` (nesting " ++
        "depth is capped at 2 — RFC-0002 §Block structure)"))
  else if kind = .pipeline ∧ 2 < line.tokens.length then
    .error (.parse s!"line {line.lineno}: `pipeline` takes at most one name")
  else if kind = .parallel ∧ 1 < line.tokens.length then
    .error (.parse s!"line {line.lineno}: `parallel` takes no name")
  else do
    checkPipelineLayout b line
    let blk : Block := ⟨kind, line.lineno, line.rest.head?, line.indent, []⟩
    let placed ← attachItem b.close (.block blk) line
    return placed.1.openAt placed.2

/-- The condition of a guard or of an alternative is validated when it is parsed. -/
def checkCondition (py : Python) (line : Line) : Except ParseFault Unit :=
  match parseCondition py (some (unwords line.rest)) with
  | .ok _ => .ok ()
  | .error (.condition e) => .error (.parse s!"line {line.lineno}: invalid condition: {e}")
  | .error e => .error (.escape e)

/-- The words of a guard line are a count or a condition. -/
def checkGuardWords (py : Python) (mode : GuardMode) (line : Line) : Except ParseFault Unit :=
  match line.rest with
  | [] =>
    let needs := if mode = .repeat then "a count" else "a condition"
    .error (.parse s!"line {line.lineno}: `{line.head}` needs {needs}")
  | count :: _ =>
    if mode = .repeat then
      if py.isdigit count then .ok ()
      else .error (.parse s!"line {line.lineno}: `repeat` needs an integer count")
    else checkCondition py line

/-- A `when`, an `until` or a `repeat`. -/
def guardLine (py : Python) (b : Body) (mode : GuardMode) (line : Line) :
    Except ParseFault Body := do
  checkGuardWords py mode line
  if b.inParallel then
    .error (.parse (s!"line {line.lineno}: a guard cannot appear inside a `parallel` block " ++
        "(close it with `merge` first)"))
  else
    checkPipelineLayout b line
    match b.pendingOtherwise, b.pendingGuard with
    | some p, _ =>
      .error (.parse (s!"line {line.lineno}: `{line.head}` follows the `otherwise` on line " ++
          s!"{p.lineno}, but `otherwise` owns exactly one step or block — a guard there would " ++
          "nest beyond depth 2 (RFC-0060, RFC-0002 §Block structure); write it as its own guard " ++
          "after the `otherwise` item"))
    | none, some g =>
      .error (.parse (s!"line {line.lineno}: `{line.head}` follows the guard on line " ++
          s!"{g.lineno}, but a guard owns exactly one step or block; write the two conditions " ++
          "as one guard joined by `and` (RFC-0015)"))
    | none, none =>
      let b ← checkGuardLayout b.close line
      return { b with
        pendingGuard := some ⟨mode, unwords line.rest, line.lineno, line.indent, []⟩ }

/-- An `or` after a guard that has no item yet. -/
def orLine (py : Python) (b : Body) (g : Guard) (line : Line) : Except ParseFault Body :=
  if g.mode ≠ .when then
    .error (.parse (s!"line {line.lineno}: `or` continues a `when` guard's alternatives, but " ++
        s!"the pending guard on line {g.lineno} is `{g.mode.word}` (RFC-0028: alternative " ++
        "guards apply to `when` only)"))
  else if line.rest = [] then
    .error (.parse s!"line {line.lineno}: `or` needs a condition")
  else do
    checkCondition py line
    return { b with
      pendingGuard := some { g with alternatives := g.alternatives ++ [unwords line.rest] } }

/-- The line of the `otherwise` that is already there. -/
def Body.firstOtherwise (b : Body) : Option Nat :=
  match b.pendingOtherwise with
  | some p => some p.lineno
  | none =>
    match b.otherwiseSlot.bind fun i => b.items[i]? with
    | some (.guard _ _ (some (n, _))) => some n
    | _ => none

/-- `_otherwise_line`. -/
def otherwiseLine (b : Body) (line : Line) : Except ParseFault Body :=
  if line.tokens.length ≠ 1 then
    .error (.parse (s!"line {line.lineno}: `otherwise` takes no words — put the item it owns on " ++
        "the next line (RFC-0060)"))
  else if b.inParallel then
    .error (.parse (s!"line {line.lineno}: `otherwise` cannot appear inside a `parallel` block " ++
        "(close it with `merge` first)"))
  else do
    checkPipelineLayout b line
    let b ← checkGuardLayout b.close line
    match b.pendingGuard, b.firstOtherwise, b.otherwiseRefused, b.otherwiseSlot with
    | some g, _, _, _ =>
      .error (.parse (s!"line {line.lineno}: `otherwise` follows the guard on line {g.lineno}, " ++
          "which has no item yet — write the guarded step or block first, then `otherwise` " ++
          "(RFC-0060)"))
    | none, some first, _, _ =>
      .error (.parse (s!"line {line.lineno}: a second `otherwise` follows the one on line " ++
          s!"{first} — a guard owns at most one `otherwise`, and `otherwise` owns exactly one " ++
          "step or block; wrap several steps in a `pipeline` block instead (RFC-0060)"))
    | none, none, some (mode, lineno), _ =>
      .error (.parse (s!"line {line.lineno}: `otherwise` follows the `{mode.word}` guard on " ++
          s!"line {lineno}, but only a `when` guard can own an `otherwise` — `{mode.word}` has " ++
          "no false branch for it to run on (RFC-0060)"))
    | none, none, none, none =>
      .error (.parse (s!"line {line.lineno}: `otherwise` has no preceding guard — it must " ++
          "immediately follow a `when` guard's single step or block, and runs when the guard " ++
          "(and its `or` alternatives) are all false (RFC-0060)"))
    | none, none, none, some slot =>
      return { b with pendingOtherwise := some ⟨slot, line.lineno, line.indent⟩ }

/-- `_append_workflow_item`. -/
def appendWorkflowItem (py : Python) (b : Body) (line : Line) : Except ParseFault Body :=
  if line.head = "merge" then mergeLine b line
  else
    match BlockKind.ofWord? line.head, GuardMode.ofWord? line.head with
    | some kind, _ => blockLine b kind line
    | none, some mode => guardLine py b mode line
    | none, none =>
      match b.pendingGuard with
      | some g =>
        if line.head = "or" then orLine py b g line
        else if line.head = "otherwise" then otherwiseLine b line
        else attachStep b line
      | none => if line.head = "otherwise" then otherwiseLine b line else attachStep b line

/-- The checks at the end of the source. -/
def finishBody (name : String) (b : Body) : Except ParseFault (List Item) :=
  if b.inParallel then
    .error (.parse s!"declaration {name} ends with an unclosed `parallel` block (missing `merge`)")
  else
    match b.pendingGuard, b.pendingOtherwise with
    | some _, _ => .error (.parse s!"declaration {name} ends with a guard that guards nothing")
    | none, some p =>
      .error (.parse (s!"declaration {name} ends with an `otherwise` that owns nothing (line " ++
          s!"{p.lineno})"))
    | none, none => .ok b.items

end Lnpl.Front

/-!
## What a body shows of its lines

Every line of a workflow body has an entry in the items that are built from it (`Item.entries`).
`described` says, from the lines alone, which entry each of them is to have: the role of a line, and
for a step the block that it is written in.  `Item.flat` forgets the columns.
-/

namespace Lnpl.Front

/-- What the items show of one line. -/
inductive Entry where
  /-- a step, with the line of the block it belongs to -/
  | step (line : Line) (owner : Option Nat)
  | guardHeader (mode : GuardMode) (arg : String) (lineno : Nat)
  | alternative (arg : String)
  | blockHeader (type : BlockKind) (name : Option String) (lineno : Nat)
  | otherwise (lineno : Nat)
  | merge
  deriving DecidableEq

/-! ### The entries of the items -/

/-- A block whose end is not there yet. -/
def Block.openEntries (blk : Block) : List Entry :=
  .blockHeader blk.type blk.name blk.lineno ::
    blk.steps.map fun line => .step line (some blk.lineno)

/-- A `parallel` block ends with its `merge`, a `pipeline` block with the next keyword. -/
def Block.entries (blk : Block) : List Entry :=
  blk.openEntries ++ if blk.type = .parallel then [.merge] else []

def Guard.entries (g : Guard) : List Entry :=
  .guardHeader g.mode g.arg g.lineno :: g.alternatives.map .alternative

/-- The entries of an item, in the order of the source. -/
def Item.entries : Item → List Entry
  | .step line => [.step line none]
  | .block blk => blk.entries
  | .guard g guarded none => g.entries ++ guarded.entries
  | .guard g guarded (some (n, other)) =>
    g.entries ++ guarded.entries ++ .otherwise n :: other.entries

/-- A step or a block. -/
inductive Item.Flat : Item → Prop
  | step (line : Line) : Flat (.step line)
  | block (blk : Block) : Flat (.block blk)

/-- Nesting goes no deeper than a guard over blocks over steps. -/
def Item.Shallow : Item → Prop
  | .guard _ guarded other => guarded.Flat ∧ ∀ entry ∈ other, entry.2.Flat
  | _ => True

/-! ### The entries that the lines are to have -/

def guardWords : List String := ["when", "until", "repeat"]

def blockWords : List String := ["parallel", "pipeline"]

/-- The words that open or close a block. -/
def controlWords : List String := ["merge", "otherwise"] ++ blockWords ++ guardWords

/-- The header of the block that is open after the lines of `back`, the latest line first: the
last line that opens or closes a block has opened one. -/
def openHeader (back : List Line) : Option Line :=
  (back.find? fun line => line.head ∈ controlWords).filter fun line => line.head ∈ blockWords

/-- After the lines of `back` a guard waits for its item: only alternatives follow its header. -/
def guardWaits (back : List Line) : Bool :=
  match back.dropWhile fun line => line.head = "or" with
  | [] => false
  | line :: _ => line.head ∈ guardWords

/-- The entry that a line is to have after the lines of `back`. -/
def entryOf (back : List Line) (line : Line) : Entry :=
  if line.head = "merge" then .merge
  else
    match BlockKind.ofWord? line.head, GuardMode.ofWord? line.head with
    | some kind, _ => .blockHeader kind line.rest.head? line.lineno
    | none, some mode => .guardHeader mode (unwords line.rest) line.lineno
    | none, none =>
      if line.head = "or" ∧ guardWaits back then .alternative (unwords line.rest)
      else if line.head = "otherwise" then .otherwise line.lineno
      else .step line ((openHeader back).map Line.lineno)

/-- The entries of the lines that follow the lines of `back`. -/
def describedAfter (back : List Line) : List Line → List Entry
  | [] => []
  | line :: lines => entryOf back line :: describedAfter (line :: back) lines

/-- One entry for each line of a body, in the order of the lines. -/
def described (lines : List Line) : List Entry := describedAfter [] lines

/-- The items hold every line once, in source order and in its role, the steps in the blocks they
are written in, and no item is nested deeper than a step in a block under a guard. -/
structure Conserved (lines : List Line) (items : List Item) : Prop where
  entries : items.flatMap Item.entries = described lines
  shallow : ∀ item ∈ items, item.Shallow

/-! ### Layout -/

def Line.flat (line : Line) : Line := { line with indent := 0 }

def Guard.flat (g : Guard) : Guard := { g with indent := 0 }

def Block.flat (blk : Block) : Block :=
  { blk with indent := 0, steps := blk.steps.map Line.flat }

/-- An item without its columns. -/
def Item.flat : Item → Item
  | .step line => .step line.flat
  | .block blk => .block blk.flat
  | .guard g guarded none => .guard g.flat guarded.flat none
  | .guard g guarded (some (n, other)) => .guard g.flat guarded.flat (some (n, other.flat))

/-- A body without its columns; no column is remembered. -/
def Body.flat (b : Body) : Body :=
  { b with
    items := b.items.map Item.flat
    pendingGuard := b.pendingGuard.map Guard.flat
    pendingOtherwise := b.pendingOtherwise.map fun p => { p with indent := 0 }
    guardVisual := none }

end Lnpl.Front
