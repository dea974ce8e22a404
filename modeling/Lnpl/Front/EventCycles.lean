import Lnpl.Lib.PyValues

/-!
# Cycles of events and workflows

`_check_event_consume_cycles`: the depth-first search over the edges of `consume by` and `emit`,
with the colours, the path and the frames that it keeps, and the diagnostics that it adds.
-/

namespace Lnpl.Front.EventCycles

open Lib.Py (sortTexts)

/-! ### The declarations -/

/-- A node that the steps of a workflow are lowered to, with the event that it names. -/
structure EmittedNode where
  kind : String
  event : String

/-- An event declaration and the workflow of its `consume by`. -/
structure EventDecl where
  id : String
  consume : Option String

structure WorkflowDecl where
  id : String
  emitted : List EmittedNode

/-- What the check is run over: the events and workflows of a module, in order. -/
structure Declared where
  events : List EventDecl
  workflows : List WorkflowDecl

/-- `event_consumes`. -/
def eventConsumes (events : List EventDecl) : List (String × String) :=
  events.filterMap fun e => e.consume.map fun wid => (e.id, wid)

/-- `emits_by_workflow`. -/
def emitsByWorkflow (workflows : List WorkflowDecl) : List (String × List String) :=
  workflows.map fun w =>
    (w.id, ((w.emitted.filter fun node => node.kind = "EventEmit").map EmittedNode.event).dedup)

/-! ### The graph -/

/-- The successors of each node that has some, in the order in which the nodes came. -/
abbrev Graph := List (String × List String)

/-- `graph.setdefault(node, set()).add(next)`. -/
def addEdge (graph : Graph) (node next : String) : Graph :=
  if (graph.lookup node).isSome then
    graph.map fun entry => if entry.1 = node then (entry.1, entry.2.insert next) else entry
  else graph ++ [(node, [next])]

def eventGraph (consumes : List (String × String)) (emits : List (String × List String)) : Graph :=
  let graph := consumes.foldl (fun graph edge => addEdge graph edge.1 edge.2) []
  emits.foldl (fun graph entry =>
    entry.2.foldl (fun graph eid => addEdge graph entry.1 eid) graph) graph

/-- `sorted(graph.get(node, ()))`. -/
def neighbours (graph : Graph) (node : String) : List String :=
  sortTexts ((graph.lookup node).getD [])

/-! ### Diagnostics -/

structure Diagnostic where
  code : String
  place : String
  subject : String
  message : String
  deriving DecidableEq, Repr

/-- The diagnostic of a cycle, whose first node is its last again. -/
def cycleDiagnostic (rotated : List String) : Diagnostic :=
  let path := " -> ".intercalate rotated
  { code := "event-consume-cycle"
    place := rotated.headD ""
    subject := "cycle " ++ path
    message := "`consume by`/`emit` forms a cycle: " ++ path ++ " — if this path ever runs " ++
      "unguarded, dispatching the event re-triggers the same workflow forever" }

/-- The nodes of a cycle, the smallest first, and this again. -/
def rotate (nodes : List String) : List String :=
  let smallest := nodes.foldl (fun a b => if b < a then b else a) (nodes.headD "")
  let start := nodes.idxOf smallest
  nodes.drop start ++ nodes.take start ++ [smallest]

/-- The two have the same elements, as frozensets. -/
def sameSet (nodes others : List String) : Bool :=
  nodes.all others.contains && others.all nodes.contains

/-! ### The search -/

inductive Colour where
  | white
  | grey
  | black
  deriving DecidableEq, Repr

/-- The colours, and the cycles that have been reported, as `report` renders them. -/
structure Search where
  colour : String → Colour
  reported : List (List String)

def Search.paint (s : Search) (node : String) (colour : Colour) : Search :=
  { s with colour := fun other => if other = node then colour else s.colour other }

/-- `report`: `path` is the path stack, its root first. -/
def Search.report (s : Search) (path : List String) (closing : String) : Search :=
  let nodes := path.dropWhile (· ≠ closing)
  if s.reported.any fun cycle => sameSet cycle.dropLast nodes then s
  else { s with reported := s.reported ++ [rotate nodes] }

/-- `while frames`; a frame is a node with the neighbours that are still to be visited.  `none` if
`fuel` does not suffice. -/
def visit (graph : Graph) : ℕ → Search → (path : List String) →
    (frames : List (String × List String)) → Option Search
  | 0, _, _, _ => none
  | _ + 1, s, _, [] => some s
  | fuel + 1, s, path, (node, []) :: frames =>
    visit graph fuel (s.paint node .black) path.dropLast frames
  | fuel + 1, s, path, (node, next :: rest) :: frames =>
    match s.colour next with
    | .grey => visit graph fuel (s.report path next) path ((node, rest) :: frames)
    | .white =>
      if (graph.lookup next).isSome then
        visit graph fuel (s.paint next .grey) (path ++ [next])
          ((next, neighbours graph next) :: (node, rest) :: frames)
      else visit graph fuel s path ((node, rest) :: frames)
    | .black => visit graph fuel s path ((node, rest) :: frames)

/-- The turns that a search can take: every neighbour once, and every node once more. -/
def turns (graph : Graph) : ℕ :=
  ((graph.map Prod.fst).map fun node => (neighbours graph node).length + 1).sum + 1

/-- `for root in graph`. -/
def visitRoots (graph : Graph) : List String → Search → Option Search
  | [], s => some s
  | root :: roots, s =>
    if s.colour root ≠ .white then visitRoots graph roots s
    else
      (visit graph (turns graph) (s.paint root .grey) [root] [(root, neighbours graph root)]).bind
        (visitRoots graph roots)

/-- `_check_event_consume_cycles`. -/
def checkEventConsumeCycles (consumes : List (String × String))
    (emits : List (String × List String)) : Option (List Diagnostic) :=
  let graph := eventGraph consumes emits
  (visitRoots graph (graph.map Prod.fst) ⟨fun _ => .white, []⟩).map fun s =>
    s.reported.map cycleDiagnostic

end Lnpl.Front.EventCycles
